import Logo.Proofs.Definitions

/-!
# What reading writes

Reading a program writes to the procedure table in all of its passes, and what was written before an
error stays.  But there are only two sorts of writes: a procedure that the program defines is
stored, or an entry is copied under the new name of an alias directive.  `Writes` says that a table
is changed by nothing else, and only under keys that are named.  It is transitive, so it holds of
whatever is put together from single writes, wherever an error cuts it off; what single writes keep
is kept by reading.
-/

namespace Logo

namespace ProcedureTable

/-- What reading does to a table, one write after the other, under keys that are named. -/
inductive Writes (named : String → Prop) : ProcedureTable → ProcedureTable → Prop
  | refl (table : ProcedureTable) : Writes named table table
  | trans {table table₁ table' : ProcedureTable} (first : Writes named table table₁)
      (second : Writes named table₁ table') : Writes named table table'
  | define (table : ProcedureTable) {p : Procedure} (hnamed : named p.key)
      (huser : p.isHost = false) : Writes named table (table.define p)
  | addAlias {table table' : ProcedureTable} {name newName : String}
      (h : table.addAlias? name newName = some table') (hnamed : named (Text.toLower newName)) :
      Writes named table table'

theorem Writes.mono {named named' : String → Prop} {table table' : ProcedureTable}
    (h : Writes named table table') (hnamed : ∀ key, named key → named' key) :
    Writes named' table table' := by
  induction h with
  | refl table => exact .refl table
  | trans _ _ ih₁ ih₂ => exact .trans ih₁ ih₂
  | define table hkey huser => exact .define table (hnamed _ hkey) huser
  | addAlias h hkey => exact .addAlias h (hnamed _ hkey)

end ProcedureTable

namespace Reader

open ProcedureTable (Writes)

variable {table : ProcedureTable} {ls mid : List Lexeme} {bound n : Nat}

/-- The key is that of a header. -/
def Heads (ls : List Lexeme) (key : String) : Prop :=
  ∃ heading ∈ headings ls, key = heading.key

theorem Heads.mono {key : String} (h : Heads mid key) (hsuffix : mid <:+ ls) : Heads ls key := by
  obtain ⟨heading, hheading, hkey⟩ := h
  exact ⟨heading, headings_subset_of_suffix hsuffix hheading, hkey⟩

/-! ## The passes over headers and aliases -/

/-- The first pass writes only under the names of headers, also where it ends with an error. -/
theorem enterHeaders_writes (table : ProcedureTable) (ls : List Lexeme) :
    Writes (Heads ls) table (enterHeaders table ls).2 := by
  induction ls generalizing table with
  | nil => exact .refl table
  | cons l ls ih =>
    have hothers : ∀ key, Heads ls key → Heads (l :: ls) key :=
      fun _ h => h.mono (List.suffix_cons _ _)
    rw [enterHeaders]
    split
    · next hto =>
      cases hheader : header ls with
      | error e => exact .refl table
      | ok r =>
        obtain ⟨h, rest⟩ := r
        have hheading : heading? (l :: ls) =
            some (.ofHeader h.name h.params l.token.position.line) := by
          rw [heading?, List.tail_cons, hheader]
          rfl
        have hopening : (l :: ls) ∈ openings (l :: ls) := mem_openings_iff.2 ⟨List.suffix_rfl, hto⟩
        exact (Writes.define table ⟨_, List.mem_filterMap.2 ⟨_, hopening, hheading⟩, rfl⟩ rfl).trans
          ((ih _).mono hothers)
    · exact (ih table).mono hothers

/-- The alias pass writes only under the new names of directives. -/
theorem enterAliases_writes (table : ProcedureTable) (ls : List Lexeme) :
    Writes (fun key => ∃ names ∈ directives ls, key = Text.toLower names.2) table
      (enterAliases table ls).2 := by
  induction ls generalizing table with
  | nil => exact .refl table
  | cons l ls ih =>
    have hothers : ∀ key, (∃ names ∈ directives ls, key = Text.toLower names.2) →
        ∃ names ∈ directives (l :: ls), key = Text.toLower names.2 := by
      rintro key ⟨names, hnames, hkey⟩
      exact ⟨names, List.mem_append_right _ hnames, hkey⟩
    rw [enterAliases]
    cases hdirective : aliasDirective? (l :: ls) with
    | none => exact (ih table).mono hothers
    | some names =>
      obtain ⟨name, newName⟩ := names
      cases hadd : table.addAlias? name newName with
      | none =>
        simp only [hadd]
        exact .refl table
      | some table₁ =>
        simp only [hadd]
        have hnames : (name, newName) ∈ directives (l :: ls) := by
          rw [directives, hdirective]
          exact List.mem_append_left _ List.mem_cons_self
        exact (Writes.addAlias hadd ⟨_, hnames, rfl⟩).trans ((ih table₁).mono hothers)

/-! ## The last pass

Where a statement is read without an error, `makesRuns_statement` says that what is left behind it
is a part of the lexemes, so that what is named there is named by them. -/

/-- The reader changes only entries that are named by the headers among the lexemes it is given. -/
def WritesHeads (bound : Nat)
    (read : ProcedureTable → List Lexeme → Reading (Statement × List Lexeme)) : Prop :=
  ∀ table ls, ls.length ≤ bound → Writes (Heads ls) table (read table ls).2

section Body

variable {read : ProcedureTable → List Lexeme → Reading (Statement × List Lexeme)}
  (hruns : MakesRuns bound read) (hwrites : WritesHeads bound read) {unterminated : ParseError}

include hruns hwrites

/-- Reading the statements of a body writes only under the names of headers. -/
theorem body_writes {taken : List Node} (hlength : ls.length ≤ bound) :
    Writes (Heads ls) table (body unterminated read n taken table ls).2 := by
  induction n generalizing taken table ls with
  | zero => exact .refl table
  | succ n ih =>
    have hstatement := hwrites table ls hlength
    have hothers : ∀ s mid table₁ taken, read table ls = (.ok (s, mid), table₁) →
        Writes (Heads ls) table (body unterminated read n taken table₁ mid).2 := by
      intro s mid table₁ taken hs
      obtain ⟨log, hrun⟩ := hruns _ _ _ _ _ hlength hs
      have hmid := hrun.suffix
      rw [hs] at hstatement
      refine hstatement.trans ((ih (Nat.le_trans hmid.length_le hlength)).mono ?_)
      exact fun key h => h.mono hmid
    simp only [body]
    split
    · exact .refl table
    · exact .refl table
    · split
      · next e table₁ hs =>
        rw [hs] at hstatement
        exact hstatement
      · next hs => exact hothers _ _ _ _ hs
      · next hs => exact hothers _ _ _ _ hs

/-- A definition writes under its own name, before its body and again behind it, and where its body
does. -/
theorem definition_writes (hlength : ls.length ≤ bound + 1) :
    Writes (Heads ls) table (definition bound read table ls).2 := by
  simp only [definition]
  split
  · exact .refl table
  · next h line inner hopening =>
    obtain ⟨hsuffix, hshorter⟩ := suffix_of_headerLine hopening
    have hheads : Heads ls (Procedure.ofHeader h.name h.params line).key :=
      ⟨_, mem_headings_of_headerLine List.suffix_rfl hopening, rfl⟩
    have hbody : ∀ unterminated, Writes (Heads ls) table
        (body unterminated read bound [] (table.define (.ofHeader h.name h.params line)) inner).2 :=
      fun unterminated => (Writes.define table hheads rfl).trans
        ((body_writes hruns hwrites (by omega)).mono fun key hkey => hkey.mono hsuffix)
    split
    · next e table₁ hread =>
      have hwritten := hbody (.unterminatedBody (Procedure.ofHeader h.name h.params line).name line)
      rwa [hread] at hwritten
    · next nodes rest table₁ hread =>
      have hwritten := hbody (.unterminatedBody (Procedure.ofHeader h.name h.params line).name line)
      rw [hread] at hwritten
      exact hwritten.trans (.define table₁ hheads rfl)

end Body

/-- Whatever is nested in a statement, reading it writes only under the names of headers. -/
theorem statement_writesHeads (bound : Nat) : WritesHeads bound (statement bound) := by
  induction bound with
  | zero => exact fun table _ _ => .refl table
  | succ bound ih =>
    intro table ls hlength
    simp only [statement]
    split
    · exact .refl table
    · exact definition_writes (makesRuns_statement bound) ih hlength
    · split <;> exact .refl table

theorem statements_writes {keep : Bool} {taken : List Node} (hlength : ls.length ≤ n) :
    Writes (Heads ls) table (statements keep n taken table ls).2 := by
  induction n generalizing taken table ls with
  | zero => exact .refl table
  | succ n ih =>
    have hstatement := statement_writesHeads (n + 1) table ls hlength
    have hothers : ∀ s mid table₁ taken, statement (n + 1) table ls = (.ok (s, mid), table₁) →
        Writes (Heads ls) table (statements keep n taken table₁ mid).2 := by
      intro s mid table₁ taken hs
      obtain ⟨log, hrun⟩ := makesRuns_statement _ _ _ _ _ _ hlength hs
      have hshorter := (hrun.mem_log _ (hrun.steps_subset _ List.mem_cons_self)).2.2
      dsimp only at hshorter
      rw [hs] at hstatement
      exact hstatement.trans ((ih (by omega)).mono fun key h => h.mono hrun.suffix)
    simp only [statements]
    split
    · exact .refl table
    · split
      · next e table₁ hs =>
        rw [hs] at hstatement
        exact hstatement
      · next hs => exact hothers _ _ _ _ hs
      · next hs => exact hothers _ _ _ _ hs
      · next hs => exact hothers _ _ _ _ hs

/-! ## Programs -/

/-- The passes together write only under the names of headers and under the new names of
directives. -/
theorem program_writes (keep : Bool) (table : ProcedureTable) (ls : List Lexeme) :
    Writes (fun key => Heads ls key ∨ ∃ names ∈ directives ls, key = Text.toLower names.2) table
      (program keep table ls).2 := by
  have hheaders := (enterHeaders_writes table ls).mono fun key =>
    Or.inl (b := ∃ names ∈ directives ls, key = Text.toLower names.2)
  simp only [program]
  split
  · next e table₁ hread =>
    rwa [hread] at hheaders
  · next table₁ hread =>
    rw [hread] at hheaders
    have haliases := (enterAliases_writes table₁ ls).mono fun key => Or.inr (a := Heads ls key)
    split
    · next e table₂ hread =>
      rw [hread] at haliases
      exact hheaders.trans haliases
    · next table₂ hread =>
      rw [hread] at haliases
      exact hheaders.trans
        (haliases.trans ((statements_writes (Nat.le_refl _)).mono fun key => .inl))

end Reader

end Logo
