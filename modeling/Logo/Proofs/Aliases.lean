import Logo.Proofs.Definitions

/-!
# What an alias stands for

Aliases are made between the headers and the definitions.  An alias of a procedure that the program
does not define is that procedure.  An alias of one that it does define has been given the entry of
the header, which has no body, and keeps it when the definition is complete
(`Run.alias_of_heading`).  So original and alias agree just if the program does not define the
original, or if the body that it gives to it is empty (`alias_agrees_iff`).
-/

namespace Logo

namespace ProcedureTable

variable {table table' : ProcedureTable} {name newName : String}
  {before after : List (String × String)}

theorem addAliases_append {aliases : List (String × String)} :
    table.addAliases (before ++ aliases) = (table.addAliases before).bind (·.addAliases aliases) :=
  List.foldlM_append

/-- An alias whose names are not touched by others has what its original has from the start. -/
theorem get?_addAliases_of_alone
    (h : table.addAliases (before ++ (name, newName) :: after) = some table')
    (hothers : ∀ names ∈ before ++ after, Text.toLower names.2 ≠ Text.toLower name ∧
        Text.toLower names.2 ≠ Text.toLower newName) :
    (table.lookup? name).isSome = true ∧ table'.lookup? name = table.lookup? name ∧
      table'.lookup? newName = table.lookup? name := by
  rw [List.forall_mem_append] at hothers
  rw [addAliases_append] at h
  obtain ⟨table₁, hbefore, h⟩ := Option.bind_eq_some_iff.1 h
  obtain ⟨table₂, hcopy, hafter⟩ := Option.bind_eq_some_iff.1 h
  have hname : table₁.lookup? name = table.lookup? name :=
    get?_addAliases_of_forall_ne hbefore fun names hnames => (hothers.1 names hnames).1.symm
  have hkeep : ∀ key, (∀ names ∈ after, key ≠ Text.toLower names.2) →
      table'.entries.get? key = table₂.entries.get? key :=
    fun key hkey => get?_addAliases_of_forall_ne hafter hkey
  refine ⟨?_, ?_, ?_⟩
  · obtain ⟨p, hp, -⟩ := Option.map_eq_some_iff.1 hcopy
    rw [← hname, hp]
    rfl
  · rw [lookup?, hkeep _ fun names hnames => (hothers.2 names hnames).1.symm, get?_addAlias? hcopy,
      hname]
    split
    · rfl
    · exact hname
  · rw [lookup?, hkeep _ fun names hnames => (hothers.2 names hnames).2.symm, get?_addAlias? hcopy,
      if_pos rfl, hname]

end ProcedureTable

namespace Reader

variable {table table' entered : ProcedureTable} {ls rest : List Lexeme} {steps log : List Step}
  {name newName : String} {before after : List (String × String)}

theorem of_mem_headings {heading : Procedure} (h : heading ∈ headings ls) :
    heading.body = .user [] ∧ heading.source = none := by
  obtain ⟨start, -, hheading⟩ := List.mem_filterMap.1 h
  rw [heading?] at hheading
  split at hheading
  · cases hheading
    exact ⟨rfl, rfl⟩
  · cases hheading

/-- A name that no header has keeps its entry through the last pass. -/
theorem Run.lookup?_eq (hrun : Run entered ls steps log table' rest)
    (h : ∀ heading ∈ headings ls, heading.name ≠ Text.toLower name) :
    table'.lookup? name = entered.lookup? name :=
  hrun.get?_eq fun heading hheading => (h heading hheading).symm

section Alone

variable (hentered : Entered table ls entered) (hrun : Run entered ls steps log table' rest)
  (hdirectives : directives ls = before ++ (name, newName) :: after)
  (hothers : ∀ names ∈ before ++ after,
    Text.toLower names.2 ≠ Text.toLower name ∧ Text.toLower names.2 ≠ Text.toLower newName)
  (hnew : ∀ heading ∈ headings ls, heading.name ≠ Text.toLower newName)

include hentered hrun hdirectives hothers hnew

/-- An alias has what its original has when all headers have been entered. -/
theorem Run.lookup?_alias : ∃ copy, table'.lookup? newName = some copy ∧
    (table.defineAll (headings ls)).lookup? name = some copy ∧
    entered.lookup? name = some copy := by
  have haliases := hentered.2
  rw [hdirectives] at haliases
  obtain ⟨hsome, hname, hnewName⟩ := ProcedureTable.get?_addAliases_of_alone haliases hothers
  obtain ⟨copy, hcopy⟩ := Option.isSome_iff_exists.1 hsome
  exact ⟨copy, by rw [hrun.lookup?_eq hnew, hnewName, hcopy], hcopy, by rw [hname, hcopy]⟩

/-- An alias of a procedure that the program does not define is that procedure. -/
theorem Run.alias_of_other (hname : ∀ heading ∈ headings ls, heading.name ≠ Text.toLower name) :
    ∃ p, table'.lookup? name = some p ∧ table'.lookup? newName = some p := by
  obtain ⟨copy, hcopy, -, hentered⟩ := hrun.lookup?_alias hentered hdirectives hothers hnew
  exact ⟨copy, by rw [hrun.lookup?_eq hname, hentered], hcopy⟩

/-- An alias of a procedure that the program defines is the header of a definition of it. -/
theorem Run.alias_of_heading (hls : Lexed 0 ls) (heof : (ahead rest).kind = .eof)
    (hname : ∃ heading ∈ headings ls, heading.name = Text.toLower name) :
    ∃ original, table'.lookup? name = some original ∧ original.source.isSome = true ∧
      ∃ copy ∈ headings ls, copy.name = Text.toLower name ∧ table'.lookup? newName = some copy := by
  obtain ⟨copy, hcopy, hopened, -⟩ := hrun.lookup?_alias hentered hdirectives hothers hnew
  obtain ⟨heading, hheading, hname⟩ := hname
  obtain ⟨step, hstep, original, horiginal, -, hget, -⟩ := hrun.exists_last hls heof hheading
  have hkey : Text.toLower name = heading.key := by rw [key_of_mem_headings hheading, hname]
  refine ⟨original, by rw [← hget, hname]; rfl, ?_, copy, ?_⟩
  · obtain ⟨_, _, _, _, _, _, _, _, -, -, -, rfl⟩ := hrun.completes step hstep original horiginal
    rfl
  · obtain ⟨front, p, back, hsplit, hp, -, hlast⟩ :=
      ProcedureTable.exists_last_defineAll table ⟨heading, hheading, hkey⟩
    cases hopened.symm.trans hlast
    have hmem : copy ∈ headings ls := by
      rw [hsplit]
      exact List.mem_append_right _ List.mem_cons_self
    exact ⟨hmem, by rw [hp, key_of_mem_headings hmem], hcopy⟩

end Alone

/-- The procedure under an alias is that of its original just if the program does not define the
original, or defines it without a statement. -/
theorem alias_agrees_iff {keep : Bool} {text : String} {nodes : List Node}
    (hread : readText keep table text = (.ok nodes, table'))
    (hdirectives : directives (Lexeme.ofText text) = before ++ (name, newName) :: after)
    (hothers : ∀ names ∈ before ++ after, Text.toLower names.2 ≠ Text.toLower name ∧
        Text.toLower names.2 ≠ Text.toLower newName)
    (hnew : ∀ heading ∈ headings (Lexeme.ofText text), heading.name ≠ Text.toLower newName) :
    ∃ original copy, table'.lookup? name = some original ∧ table'.lookup? newName = some copy ∧
      ((∀ heading ∈ headings (Lexeme.ofText text), heading.name ≠ Text.toLower name) →
        copy = original) ∧
      ((∃ heading ∈ headings (Lexeme.ofText text), heading.name = Text.toLower name) →
        copy ∈ headings (Lexeme.ofText text) ∧ copy.name = Text.toLower name ∧
          copy.body = .user [] ∧ copy.source = none ∧ original.source.isSome = true) ∧
      (copy.params = original.params ∧ copy.body = original.body ↔
        (∀ heading ∈ headings (Lexeme.ofText text), heading.name ≠ Text.toLower name) ∨
          copy.params = original.params ∧ original.body = .user []) := by
  obtain ⟨entered, steps, log, rest, hentered, hrun, heof, -⟩ := program_eq_ok_iff.1 hread
  have hls := lexed_ofText text
  by_cases hname : ∃ heading ∈ headings (Lexeme.ofText text), heading.name = Text.toLower name
  · obtain ⟨original, horiginal, hsource, copy, hmem, hcopyName, hcopy⟩ :=
      hrun.alias_of_heading hentered hdirectives hothers hnew hls heof hname
    obtain ⟨hbody, hnone⟩ := of_mem_headings hmem
    obtain ⟨heading, hheading, heq⟩ := hname
    refine ⟨original, copy, horiginal, hcopy, fun hno => absurd heq (hno heading hheading),
      fun _ => ⟨hmem, hcopyName, hbody, hnone, hsource⟩, ?_⟩
    rw [hbody]
    constructor
    · rintro ⟨hparams, hempty⟩
      exact .inr ⟨hparams, hempty.symm⟩
    · rintro (hno | ⟨hparams, hempty⟩)
      · exact absurd heq (hno heading hheading)
      · exact ⟨hparams, hempty.symm⟩
  · have hno : ∀ heading ∈ headings (Lexeme.ofText text), heading.name ≠ Text.toLower name :=
      fun heading hheading heq => hname ⟨heading, hheading, heq⟩
    obtain ⟨p, horiginal, hcopy⟩ := hrun.alias_of_other hentered hdirectives hothers hnew hno
    exact ⟨p, p, horiginal, hcopy, fun _ => rfl, fun h => absurd h hname, fun _ => .inl hno,
      fun _ => ⟨rfl, rfl⟩⟩

/-! ## An alias that is made too early -/

/-- The second alias takes the header of a definition that has a body. -/
def earlyAliasText : String :=
  "alias \"print \"say\nto f :x\nsay :x\nend\nalias \"f \"g\n"

/-- A table with a procedure `print`. -/
def printTable : ProcedureTable :=
  ProcedureTable.empty.define (.ofHost "print" ["value"] .native ⟨.print, 0⟩)

/-- The number of statements in the body of a procedure. -/
def bodyLength (p : Procedure) : Nat :=
  match p.body with
  | .user nodes => nodes.length
  | .host .. => 0

theorem earlyAlias_read :
    ∃ nodes table', readText false printTable earlyAliasText = (.ok nodes, table') ∧
    (table'.lookup? "f").map bodyLength = some 1 ∧
    (table'.lookup? "g").map bodyLength = some 0 := by
  have hok : (readText false printTable earlyAliasText).1.isOk = true := by
    rw [readText, Lexeme.ofText_eq]
    decide +kernel
  have hbodies : ["f", "g"].map (fun name =>
      ((readText false printTable earlyAliasText).2.lookup? name).map bodyLength) =
        [some 1, some 0] := by
    rw [readText, Lexeme.ofText_eq]
    decide +kernel
  obtain ⟨nodes, table', hread⟩ := exists_of_isOk hok
  rw [hread] at hbodies
  injection hbodies with hf hbodies
  injection hbodies with hg
  exact ⟨nodes, table', hread, hf, hg⟩

theorem earlyAlias_directives :
    directives (Lexeme.ofText earlyAliasText) = [("print", "say")] ++ ("f", "g") :: [] := by
  rw [Lexeme.ofText_eq]
  decide +kernel

theorem earlyAlias_others : ∀ names ∈ [("print", "say")] ++ ([] : List (String × String)),
    Text.toLower names.2 ≠ Text.toLower "f" ∧ Text.toLower names.2 ≠ Text.toLower "g" := by
  decide +kernel

theorem earlyAlias_headings :
    ∀ heading ∈ headings (Lexeme.ofText earlyAliasText), heading.name ≠ Text.toLower "g" := by
  have hall : ((headings (Lexeme.ofText earlyAliasText)).all fun heading =>
      heading.name != Text.toLower "g") = true := by
    rw [Lexeme.ofText_eq]
    decide +kernel
  exact fun heading hheading => bne_iff_ne.1 (List.all_eq_true.1 hall heading hheading)

theorem alias_agrees_iff_early :
    ∃ nodes table', readText false printTable earlyAliasText = (.ok nodes, table') ∧
    ∃ original copy, table'.lookup? "f" = some original ∧ table'.lookup? "g" = some copy ∧
      (copy.params = original.params ∧ copy.body = original.body ↔
        (∀ heading ∈ headings (Lexeme.ofText earlyAliasText), heading.name ≠ Text.toLower "f") ∨
          copy.params = original.params ∧ original.body = .user []) := by
  obtain ⟨nodes, table', hread, -⟩ := earlyAlias_read
  obtain ⟨original, copy, horiginal, hcopy, -, -, hiff⟩ :=
    alias_agrees_iff hread earlyAlias_directives earlyAlias_others earlyAlias_headings
  exact ⟨nodes, table', hread, original, copy, horiginal, hcopy, hiff⟩

/-- It is not so that every alias has the parameters and the body of its original. -/
theorem alias_without_body :
    ¬ ∀ (keep : Bool) (table table' : ProcedureTable) (text : String) (nodes : List Node)
      (before after : List (String × String)) (name newName : String),
      readText keep table text = (.ok nodes, table') →
      directives (Lexeme.ofText text) = before ++ (name, newName) :: after →
      (∀ names ∈ before ++ after,
        Text.toLower names.2 ≠ Text.toLower name ∧ Text.toLower names.2 ≠ Text.toLower newName) →
      (∀ heading ∈ headings (Lexeme.ofText text), heading.name ≠ Text.toLower newName) →
      ∃ original copy, table'.lookup? name = some original ∧ table'.lookup? newName = some copy ∧
        copy.params = original.params ∧ copy.body = original.body := by
  intro hall
  obtain ⟨nodes, table', hread, hf, hg⟩ := earlyAlias_read
  obtain ⟨original, copy, horiginal, hcopy, -, hbody⟩ :=
    hall _ _ _ _ _ _ _ _ _ hread earlyAlias_directives earlyAlias_others earlyAlias_headings
  rw [horiginal] at hf
  rw [hcopy] at hg
  have hlength : bodyLength copy = bodyLength original := by rw [bodyLength, hbody, bodyLength]
  have hf' : bodyLength original = 1 := Option.some.inj hf
  have hg' : bodyLength copy = 0 := Option.some.inj hg
  omega

end Reader

end Logo
