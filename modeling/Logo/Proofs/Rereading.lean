import Logo.Proofs.Aliases
import Logo.Proofs.BetweenSpaces
import Mathlib.Data.List.Chain

/-!
# Reading the text of a definition again

A procedure keeps the text of its definition.  When the program has been read, the headers and
aliases in this text can be entered in the table that is left: a name follows each word `to`, as
before, and the originals of the aliases are still known (`Run.exists_entered`).  Then the
definition is read again with the same parameters and the same body, if its lexemes mean the same in
both readings (`source_reread`).

They do not always.  The program may go on to define a name with another number of inputs, and a
sign behind an operand becomes an operator (`source_not_reread`).
-/

namespace Logo

namespace Reader

open Lexeme

variable {table table' t t' new : ProcedureTable} {l : Lexeme} {ls used rest : List Lexeme}
  {nodes : List Node} {steps log : List Step}

/-! ## Entering the headers and aliases of a definition -/

theorem isSome_heading?_iff : (heading? (l :: ls)).isSome = true ↔ (ahead ls).kind = .symbol := by
  rw [heading?, List.tail_cons]
  constructor
  · intro hsome
    split at hsome
    · next hheader =>
      obtain ⟨name, params, rfl, hname, -⟩ := header_eq_ok_iff.1 hheader
      exact hname
    · cases hsome
  · intro hname
    cases ls with
    | nil => cases hname
    | cons name ls =>
      have hkind : name.kind = .symbol := hname
      simp only [header, expect_cons hkind, bind, Except.bind]
      rfl

theorem map_kind_of_alike (h : Alike ls rest) : rest.map Lexeme.kind = ls.map Lexeme.kind := by
  have hkinds := congrArg (List.map Lexeme.kind) (Eq.symm h)
  rw [List.map_map, List.map_map] at hkinds
  exact hkinds

/-- Whether all headers can be entered is a matter of kinds: a name follows every word `to`. -/
theorem forall_isSome_heading?_iff : (∀ start ∈ openings ls, (heading? start).isSome = true) ↔
    (ls.map Lexeme.kind ++ [TokenClass.eof]).IsChain
      fun kind next => kind = .toWord → next = .symbol := by
  induction ls with
  | nil => exact ⟨fun _ => .singleton _, fun _ => nofun⟩
  | cons l ls ih =>
    have hahead : (ls.map Lexeme.kind ++ [TokenClass.eof]).head? = some (ahead ls).kind := by
      cases ls <;> rfl
    rw [List.map_cons, List.cons_append, List.isChain_cons, ← ih, openings]
    simp only [hahead, Option.mem_some_iff, forall_eq']
    split
    · next hto => rw [List.forall_mem_cons, isSome_heading?_iff, forall_prop_of_true hto]
    · next hto => rw [forall_prop_of_false hto, true_and]

theorem aliasDirective?_respelled (ls : List Lexeme) :
    aliasDirective? (ls.map respelled) = aliasDirective? ls := by
  match ls with
  | [] | [_] | [_, _] => rfl
  | l :: m :: n :: _ =>
    rw [List.map_cons, List.map_cons, List.map_cons, aliasDirective?, aliasDirective?]
    by_cases hkinds : l.kind = .symbol ∧ m.kind = .quote ∧ n.kind = .quote
    · obtain ⟨hl, hm, hn⟩ := hkinds
      rw [token_respelled (by rw [hl]; decide), token_respelled (by rw [hm]; decide),
        token_respelled (by rw [hn]; decide)]
      rfl
    · exact (if_neg fun h => hkinds ⟨h.1, h.2.2⟩).trans (if_neg fun h => hkinds ⟨h.1, h.2.2⟩).symm

theorem directives_respelled (ls : List Lexeme) :
    directives (ls.map respelled) = directives ls := by
  induction ls with
  | nil => rfl
  | cons l ls ih =>
    have hfirst := aliasDirective?_respelled (l :: ls)
    rw [List.map_cons] at hfirst
    rw [List.map_cons, directives, directives, hfirst, ih]

theorem directives_subset (h : used <:+: ls) : directives used ⊆ directives ls := by
  obtain ⟨front, back, rfl⟩ := h
  rw [List.append_assoc]
  have hback : ∀ used : List Lexeme, directives used ⊆ directives (used ++ back) := by
    intro used
    induction used with
    | nil => exact List.nil_subset _
    | cons l used ih =>
      rw [List.cons_append, directives, directives]
      refine List.append_subset.2 ⟨fun names hnames => List.mem_append_left _ ?_,
        fun names hnames => List.mem_append_right _ (ih hnames)⟩
      rcases used with _ | ⟨_, _ | ⟨_, _⟩⟩
      · cases hnames
      · cases hnames
      · exact hnames
  refine List.Subset.trans (hback used) ?_
  induction front with
  | nil => exact List.Subset.refl _
  | cons l front ih =>
    rw [List.cons_append, directives]
    exact List.Subset.trans ih (List.subset_append_right _ _)

/-- The headers and aliases of a definition in a program can be entered again when the program has
been read. -/
theorem Run.exists_entered {entered : ProcedureTable} {front ls' : List Lexeme} {e : Lexeme}
    (hrun : Run entered ls steps log table' rest) (hentered : Entered table ls entered)
    (hinside : used <:+: ls) (hused : used = front ++ [e]) (hend : e.kind = .endWord)
    (halike : Alike ls' (used.map respelled ++ [Lexeme.closing])) :
    ∃ again, Entered table' ls' again := by
  subst hused
  have hkinds : ls'.map Lexeme.kind = front.map Lexeme.kind ++ [.endWord, .eof] := by
    rw [map_kind_of_alike halike.symm, List.map_append, List.map_map, List.map_append,
      List.append_assoc, ← hend]
    rfl
  have hdirectives : directives ls' = directives (front ++ [e]) := by
    rw [directives_of_alike halike.symm, directives_concat (by decide), directives_respelled]
  obtain ⟨again, hagain⟩ : ∃ again,
      (table'.defineAll (headings ls')).addAliases (directives ls') = some again := by
    refine ProcedureTable.exists_addAliases fun names hnames =>
      ProcedureTable.isSome_get?_defineAll ?_
    rw [hdirectives] at hnames
    rw [(hrun.made_sameNames hentered).1]
    exact ProcedureTable.isSome_lookup?_of_addAliases hentered.2 (directives_subset hinside hnames)
  refine ⟨again, forall_isSome_heading?_iff.2 ?_, hagain⟩
  have hchain := List.IsChain.infix (forall_isSome_heading?_iff.1 hentered.1)
    ((hinside.map Lexeme.kind).trans (List.prefix_append _ _).isInfix)
  rw [List.map_append, List.map_singleton, hend] at hchain
  rw [hkinds, List.append_assoc]
  exact List.isChain_append_cons_cons.2 ⟨hchain, by decide, .cons_cons (by decide) (.singleton _)⟩

/-! ## Definitions read again -/

/-- The statement can be read from the table. -/
def Step.ReadFrom (step : Step) (t : ProcedureTable) : Prop :=
  ∃ inside t', Run t step.start [step] inside t' step.rest

/-- The lexemes of a statement. -/
def Step.taken (step : Step) : List Lexeme :=
  step.start.take (step.start.length - step.rest.length)

/-- A definition is read alike when nothing stands behind it. -/
theorem Step.ReadFrom.alone {step : Step} {p : Procedure} (h : step.ReadFrom t)
    (hp : step.procedure? = some p) :
    ∃ front e inside t', step.start = step.taken ++ step.rest ∧ step.taken = front ++ [e] ∧
      e.kind = .endWord ∧ p.source = some (definitionText true step.taken) ∧
      Run t step.taken [⟨step.taken, .definition p, []⟩] inside t' [] := by
  obtain ⟨inside, t', hrun⟩ := h
  obtain ⟨start, s, rest⟩ := step
  cases hrun with
  | blank | expression => cases hp
  | @definition _ _ _ e _ inner _ _ h line _ bodySteps _ _ _ opening body closing
      complete_eq others =>
    cases hp
    cases others
    obtain ⟨o, name, params, newline, rfl, hopening⟩ := headerLine_eq_ok_iff.1 opening
    obtain ⟨within, rfl, hbody⟩ := body.extend
    obtain ⟨bodySteps', bodyLog', hrunBody, hbodySteps⟩ := hbody [e] (.cons rfl)
    have hstart : o :: name :: (params ++ newline :: (within ++ e :: rest)) =
        o :: name :: (params ++ newline :: (within ++ [e])) ++ rest := by simp
    have htaken :
        Step.taken ⟨o :: name :: (params ++ newline :: (within ++ e :: rest)), .definition p,
          rest⟩ = o :: name :: (params ++ newline :: (within ++ [e])) := by
      rw [Step.taken, hstart, List.length_append, Nat.add_sub_cancel, List.take_left]
    rw [htaken]
    refine ⟨o :: name :: (params ++ newline :: within), e, _, _, hstart, by simp, closing, ?_,
      .definition (headerLine_eq_ok_iff.2 ⟨o, name, params, newline, rfl, hopening⟩) hrunBody
      closing ?_ .done⟩
    · rw [← htaken, complete_eq]
      rfl
    · have hsame := complete_append h line (bodySteps.filterMap Step.expression?)
        (o :: name :: (params ++ newline :: (within ++ [e]))) rest []
      rw [complete_eq, filterMap_of_statement (fun _ _ => Step.expression?_of_statement) hbodySteps,
        hstart, ← hsame, List.append_nil]

/-- A definition is under its name when it has been read. -/
theorem Run.lookup?_definition {p : Procedure} {start ending : List Lexeme}
    (h : Run t ls [⟨start, .definition p, ending⟩] log t' rest) : t'.lookup? p.name = some p := by
  cases h with
  | definition _ _ _ _ others =>
    cases others
    rw [ProcedureTable.lookup?_define, if_pos rfl]

/-- A definition that means the same in both readings is read again from its text. -/
theorem Run.reread {p : Procedure} (h : Run t used [⟨used, .definition p, []⟩] log t' [])
    (halike : Alike ls (used.map respelled ++ [Lexeme.closing]))
    (hreads : readsAlike 0 ⟨t, new, [], .start⟩ used = true) :
    ∃ q log' table'' ending, Run new ls [⟨ls, .definition q, ending⟩] log' table'' ending ∧
      (ahead ending).kind = .eof ∧ q.unplaced = p.unplaced := by
  obtain ⟨steps₁, log₁, t₁, _, _, _, hrun₁, hsteps₁, -⟩ :=
    h.map_respelled (fun _ => rfl) (fun _ => rfl) hreads nofun
  obtain ⟨used₁, hused₁, htransport⟩ := hrun₁.transport
  rw [List.map_nil, List.append_nil] at hused₁
  subst hused₁
  obtain ⟨used₂, rest₂, hls, hused₂, hrest₂⟩ := halike.symm.exists_append
  have heof : (ahead rest₂).kind = .eof := kind_ahead_of_alike hrest₂
  have hstops : StopsAlike [] rest₂ := .of_isOperator nofun (by rw [heof]; rfl)
  obtain ⟨steps₂, log₂, t₂, hrun₂, hsteps₂, -⟩ :=
    htransport new used₂ rest₂ (fun _ => rfl) hused₂ hstops
  rw [← hls] at hrun₂
  have hstatements : unplacedStatements steps₂ = [.definition p.unplaced] := by
    have hunplaced := congrArg (List.map Statement.unplaced) hsteps₁
    rw [List.map_map] at hunplaced
    exact hsteps₂.trans hunplaced
  obtain ⟨⟨start, s, ending⟩, others, rfl, hstatement, hnil⟩ := List.map_eq_cons_iff.1 hstatements
  cases List.map_eq_nil_iff.1 hnil
  cases hrun₂ with
  | blank | expression => cases hstatement
  | @definition _ _ _ _ _ _ _ _ _ _ q _ _ _ _ opening body closing complete_eq others =>
    cases others
    exact ⟨q, _, _, _, .definition opening body closing complete_eq .done, heof,
      Statement.definition.inj hstatement⟩

/-- The lexemes of a definition are those of its text, but for signs. -/
theorem Step.ReadFrom.alike_ofText {step : Step} (h : step.ReadFrom t) (hls : Lexed 0 step.start)
    (hstart : step.start = step.taken ++ step.rest) :
    Alike (ofText (definitionText true step.taken))
      (step.taken.map respelled ++ [Lexeme.closing]) := by
  obtain ⟨inside, t', hrun⟩ := h
  obtain ⟨used, hused, -, hreadable⟩ := (hrun.crosses hls).depth
  obtain rfl : step.taken = used := List.append_cancel_right (hstart.symm.trans hused)
  rw [hstart] at hls
  exact alike_ofText_definitionText hls hreadable

/-- The text of a definition can be read again in the table that is left by the program: its headers
and aliases can be entered there, and if the lexemes of the definition mean the same as from the
table that it was read from, the text is read as the definition alone, with the same parameters and
the same body. -/
theorem source_reread {keep : Bool} {text : String}
    (hread : readText keep table text = (.ok nodes, table')) :
    ∃ entered steps log rest, Entered table (ofText text) entered ∧
      Run entered (ofText text) steps log table' rest ∧ (ahead rest).kind = .eof ∧
      ∀ step ∈ log, ∀ p, step.procedure? = some p → (∃ t, step.ReadFrom t) ∧
        ∃ source again, p.source = some source ∧ Entered table' (ofText source) again ∧
          ∀ t, step.ReadFrom t → readsAlike 0 ⟨t, again, [], .start⟩ step.taken = true →
            ∃ table'' q, readText false table' source = (.ok [], table'') ∧
              table''.lookup? p.name = some q ∧ q.params = p.params ∧ q.body = p.body := by
  obtain ⟨entered, steps, log, rest, hentered, hrun, heof, rfl⟩ := program_eq_ok_iff.1 hread
  refine ⟨entered, steps, log, rest, hentered, hrun, heof, fun step hstep p hp => ?_⟩
  obtain ⟨-, hmade⟩ := hrun.made (fun _ => True) (fun _ _ _ _ _ _ _ => trivial) trivial
  obtain ⟨t₀, inside, t₁, -, hstepRun, -⟩ := hmade step hstep
  have hfrom : step.ReadFrom t₀ := ⟨inside, t₁, hstepRun⟩
  obtain ⟨front, e, _, _, hstart, htaken, hend, hsource, -⟩ := hfrom.alone hp
  have halike := hfrom.alike_ofText (hrun.lexed_of_mem_log (lexed_ofText text) step hstep) hstart
  have hinside : step.taken <:+: ofText text := by
    have hsuffix := (hrun.mem_log step hstep).1
    rw [hstart] at hsuffix
    exact (List.prefix_append _ _).isInfix.trans hsuffix.isInfix
  obtain ⟨again, hagain⟩ := hrun.exists_entered hentered hinside htaken hend halike
  refine ⟨⟨t₀, hfrom⟩, _, again, hsource, hagain, fun t ht hreads => ?_⟩
  obtain ⟨_, _, _, _, -, -, -, -, halone⟩ := ht.alone hp
  obtain ⟨q, log', table'', ending, hrun', heof', hunplaced⟩ := halone.reread halike hreads
  simp only [Procedure.unplaced, Procedure.mk.injEq] at hunplaced
  obtain ⟨hname, hparams, hbody, -⟩ := hunplaced
  refine ⟨table'', q, program_eq_ok_iff.2 ⟨again, _, log', ending, hagain, hrun', heof', rfl⟩, ?_,
    hparams, hbody⟩
  rw [← hname]
  exact hrun'.lookup?_definition

/-! ## Signs behind operands, and names that are defined twice -/

/-- Whether a definition with the given text stands at the front, and means the same in both
readings. -/
def opensReread (table again : ProcedureTable) (source : String) (ls : List Lexeme) : Bool :=
  match statement ls.length table ls with
  | (.ok (.definition p, stop), _) => p.source == some source &&
      readsAlike 0 ⟨table, again, [], .start⟩ (Step.taken ⟨ls, .definition p, stop⟩)
  | _ => false

/-- A definition with a minus that is a sign, one that is none, and one in a list. -/
def signsText : String :=
  "to g :x\nprint -1 print :x -  1\nprint [g -1]\nend"

def signsSource : String :=
  "to g :x\nprint - 1 print :x - 1\nprint [ g -1 ]\nend"

theorem source_reread_signs :
    ∃ (p q : Procedure) (nodes : List Node) (table' table'' : ProcedureTable),
      readText false printTable signsText = (.ok nodes, table') ∧ p.source = some signsSource ∧
      readText false table' signsSource = (.ok [], table'') ∧ table''.lookup? p.name = some q ∧
      q.params = p.params ∧ q.body = p.body := by
  have hok : (readText false printTable signsText).1.isOk = true := by
    rw [readText, Lexeme.ofText_eq]
    decide +kernel
  have hdirectives : directives (ofText signsText) = [] ∧ directives (ofText signsSource) = [] := by
    simp only [Lexeme.ofText_eq]
    decide +kernel
  have hopens : opensReread (printTable.defineAll (headings (ofText signsText)))
      ((readText false printTable signsText).2.defineAll
        (headings (ofText signsSource))) signsSource
      (ofText signsText) = true := by
    simp only [readText, Lexeme.ofText_eq]
    decide +kernel
  obtain ⟨nodes, table', hread⟩ := exists_of_isOk hok
  obtain ⟨entered, steps, log, rest, ⟨-, haliases⟩, hrun, heof, hall⟩ := source_reread hread
  rw [hdirectives.1] at haliases
  cases haliases
  rw [hread, opensReread] at hopens
  split at hopens
  · next p stop t hstatement =>
    rw [Bool.and_eq_true, beq_iff_eq] at hopens
    obtain ⟨log₁, hrun₁⟩ := makesRuns_statement _ _ _ _ _ _ Nat.le.refl hstatement
    obtain ⟨_, others, -, rfl, -⟩ := hrun₁.exists_others hrun fun hopens => by
      rw [heof] at hopens
      cases hopens
    have hstep := List.mem_append_left others (hrun₁.steps_subset _ List.mem_cons_self)
    obtain ⟨-, source, again, hsource, ⟨-, hagain⟩, hreread⟩ := hall _ hstep p rfl
    cases hsource.symm.trans hopens.1
    rw [hdirectives.2] at hagain
    cases hagain
    obtain ⟨table'', q, hresult⟩ := hreread _ ⟨log₁, t, hrun₁⟩ hopens.2
    exact ⟨p, q, nodes, table', table'', hread, hsource, hresult⟩
  · cases hopens

/-- Every definition that is complete when the text has been read can be read again from its own
text. -/
def SourcesReread (table : ProcedureTable) (text : String) : Prop :=
  ∀ (keep : Bool) (nodes : List Node) (table' : ProcedureTable),
    readText keep table text = (.ok nodes, table') →
    ∃ entered steps log rest, Entered table (ofText text) entered ∧
      Run entered (ofText text) steps log table' rest ∧ (ahead rest).kind = .eof ∧
      ∀ step ∈ log, ∀ p source, step.procedure? = some p → p.source = some source →
        ∃ table'' q, readText false table' source = (.ok [], table'') ∧
          table''.lookup? p.name = some q ∧ q.params = p.params ∧ q.body = p.body

theorem not_sourcesReread {text : String} (name source : String)
    (hok : (readText false table text).1.isOk = true)
    (hname : name ∈ (headings (ofText text)).map (·.name))
    (hsource : ((readText false table text).2.entries.get? name).bind (·.source) = some source)
    (hlength : ((readText false table text).2.entries.get? name).map bodyLength ≠
        ((readText false (readText false table text).2 source).2.lookup? name).map bodyLength) :
    ¬ SourcesReread table text := by
  intro h
  obtain ⟨nodes, table', hread⟩ := exists_of_isOk hok
  obtain ⟨entered, steps, log, rest, -, hrun, heof, hall⟩ := h _ _ _ hread
  obtain ⟨heading, hheading, rfl⟩ := List.mem_map.1 hname
  obtain ⟨step, hstep, p, hp, hlast, hget, -⟩ := hrun.exists_last (lexed_ofText text) heof hheading
  rw [hread] at hsource hlength
  rw [hget] at hsource hlength
  obtain ⟨table'', q, hreread, hlookup, -, hbody⟩ := hall step hstep p source hp hsource
  rw [hlast] at hlookup
  rw [hreread, hlookup] at hlength
  exact hlength (by rw [Option.map_some, Option.map_some, bodyLength, bodyLength, hbody])

/-- A name that is used with one input and is defined with two inputs later. -/
def redefinedText : String :=
  "to f :a\nend\nto g\nf 1\nend\nto f :a :b\nend\n"

/-- A sign behind an operand. -/
def looseSignText : String :=
  "to g :x\nprint :x -1\nend\n"

/-- It is not so that every definition can be read again from its text: a name in it may have got
another number of inputs, and a sign becomes an operator. -/
theorem source_not_reread :
    ¬ SourcesReread printTable redefinedText ∧ ¬ SourcesReread printTable looseSignText := by
  constructor
  · refine not_sourcesReread "g" "to g\nf 1\nend" ?_ ?_ ?_ ?_ <;>
      simp only [readText, Lexeme.ofText_eq] <;> decide +kernel
  · refine not_sourcesReread "g" "to g :x\nprint :x - 1\nend" ?_ ?_ ?_ ?_ <;>
      simp only [readText, Lexeme.ofText_eq] <;> decide +kernel

end Reader

end Logo
