import Logo.Proofs.BracketDepth
import Logo.Proofs.LowerCase

/-!
# Headers and definitions

The first pass finds the words `to` wherever they stand, and the last one reads definitions inside
of definitions.  Both come upon the same ones: every word `to` starts one definition of the log
(`Run.openings_perm`), with the header that the first pass has found there
(`heading?_of_headerLine`).

So when a program has been read, every name of a header is taken by a complete procedure, that of
the definition which ends last (`headers_completed`).  It also follows that what the last pass
stores changes nothing that the headers have settled before it (`Run.made`).
-/

namespace Logo

namespace Reader

variable {table table' : ProcedureTable} {ls start inner rest : List Lexeme} {l : Lexeme}
  {steps log : List Step} {h : Header} {line : Nat} {p : Procedure} {depth : Nat}

/-! ## Headers -/

theorem heading?_of_headerLine (hread : headerLine start = .ok ((h, line), inner)) :
    heading? start = some (.ofHeader h.name h.params line) := by
  obtain ⟨o, name, params, newline, rfl, -, hname, hparams, hnewline, rfl, rfl⟩ :=
    headerLine_eq_ok_iff.1 hread
  have hahead : (ahead (newline :: inner)).kind = .newline := hnewline
  have hheader :=
    header_eq_ok_iff.2 ⟨name, params, rfl, hname, hparams, by rw [hahead]; decide, rfl⟩
  rw [heading?, List.tail_cons, hheader]
  rfl

theorem mem_openings_of_headerLine (hsuffix : start <:+ ls)
    (hread : headerLine start = .ok ((h, line), inner)) :
    start ∈ openings ls := by
  obtain ⟨o, name, params, newline, rfl, hto, -⟩ := headerLine_eq_ok_iff.1 hread
  exact mem_openings_iff.2 ⟨hsuffix, hto⟩

theorem mem_headings_of_headerLine (hsuffix : start <:+ ls)
    (hread : headerLine start = .ok ((h, line), inner)) :
    Procedure.ofHeader h.name h.params line ∈ headings ls :=
  List.mem_filterMap.2
    ⟨start, mem_openings_of_headerLine hsuffix hread, heading?_of_headerLine hread⟩

/-- The names of headers are in lower case. -/
theorem key_of_mem_headings (hp : p ∈ headings ls) : p.key = p.name := by
  obtain ⟨start, -, hheading⟩ := List.mem_filterMap.1 hp
  rw [heading?] at hheading
  split at hheading
  · cases hheading
    exact Text.toLower_toLower _
  · cases hheading

theorem headings_subset_of_suffix (h : start <:+ ls) : headings start ⊆ headings ls := by
  intro p hp
  obtain ⟨place, hplace, hheading⟩ := List.mem_filterMap.1 hp
  obtain ⟨hpart, hto⟩ := mem_openings_iff.1 hplace
  exact List.mem_filterMap.2 ⟨place, mem_openings_iff.2 ⟨hpart.trans h, hto⟩, hheading⟩

theorem nodup_openings (ls : List Lexeme) : (openings ls).Nodup := by
  induction ls with
  | nil => exact List.nodup_nil
  | cons l ls ih =>
    rw [openings]
    split
    · refine List.nodup_cons.2 ⟨fun hmem => ?_, ih⟩
      have hle := (mem_openings_iff.1 hmem).1.length_le
      rw [List.length_cons] at hle
      omega
    · exact ih

/-! ## Tables during the last pass -/

/-- The statement is read from a table of a kind, and what is complete by then is in the log. -/
def Step.Made (Stable : ProcedureTable → Prop) (log : List Step) (step : Step) : Prop :=
  ∃ t inside t', Stable t ∧ Run t step.start [step] inside t' step.rest ∧ inside ⊆ log

theorem Step.Made.mono {Stable : ProcedureTable → Prop} {log' : List Step} {step : Step}
    (h : step.Made Stable log) (hlog : log ⊆ log') : step.Made Stable log' := by
  obtain ⟨t, inside, t', ht, hrun, hinside⟩ := h
  exact ⟨t, inside, t', ht, hrun, List.Subset.trans hinside hlog⟩

/-- Nothing but headers and procedures with their names and parameters is stored during a run. -/
theorem Run.made (hrun : Run table ls steps log table' rest) (Stable : ProcedureTable → Prop)
    (hstable : ∀ heading ∈ headings ls, ∀ t p, p.key = heading.key → p.params = heading.params →
      Stable t → Stable (t.define p)) (htable : Stable table) :
    Stable table' ∧ ∀ step ∈ log, step.Made Stable log := by
  induction hrun with
  | done => exact ⟨htable, nofun⟩
  | @blank t _ _ _ _ _ _ newline _ ih =>
    obtain ⟨hend, hlog⟩ :=
      ih (fun p hp => hstable p (headings_subset_of_suffix (List.suffix_cons _ _) hp)) htable
    refine ⟨hend, List.forall_mem_cons.2 ⟨⟨t, _, t, htable, .blank newline .done, by simp⟩, ?_⟩⟩
    exact fun step hstep => (hlog step hstep).mono (List.subset_cons_self _ _)
  | @expression t _ _ _ _ _ _ _ first _ ih =>
    obtain ⟨used, rfl, -⟩ := first.exists_used
    obtain ⟨hend, hlog⟩ :=
      ih (fun p hp => hstable p (headings_subset_of_suffix (List.suffix_append _ _) hp)) htable
    refine ⟨hend, List.forall_mem_cons.2 ⟨⟨t, _, t, htable, .expression first .done, by simp⟩, ?_⟩⟩
    exact fun step hstep => (hlog step hstep).mono (List.subset_cons_self _ _)
  | @definition t t₁ _ _ _ _ _ _ _ _ p _ _ _ _ opening body closing complete_eq _ ihBody ih =>
    have hinner := (suffix_of_headerLine opening).1
    have hmid := ((List.suffix_cons _ _).trans body.suffix).trans hinner
    have hheading := mem_headings_of_headerLine List.suffix_rfl opening
    have hopened := hstable _ hheading t _ rfl rfl htable
    obtain ⟨hclosed, hbody⟩ :=
      ihBody (fun p hp => hstable p (headings_subset_of_suffix hinner hp)) hopened
    have hdefined : Stable (t₁.define p) := by
      refine hstable _ hheading t₁ p ?_ ?_ hclosed <;> rw [complete_eq] <;> rfl
    obtain ⟨hend, hlog⟩ := ih (fun p hp => hstable p (headings_subset_of_suffix hmid hp)) hdefined
    refine ⟨hend, List.forall_mem_append.2 ⟨fun step hstep => ?_, List.forall_mem_cons.2 ⟨?_, ?_⟩⟩⟩
    · exact (hbody step hstep).mono (List.subset_append_left _ _)
    · refine ⟨t, _, _, htable, .definition opening body closing complete_eq .done, ?_⟩
      exact List.append_subset.2 ⟨List.subset_append_left _ _, by simp⟩
    · intro step hstep
      exact (hlog step hstep).mono
        (List.Subset.trans (List.subset_cons_self _ _) (List.subset_append_right _ _))

/-! ## Definitions -/

/-- The statement is a definition of the procedure, read from its header to its word `end`. -/
def Step.Completes (step : Step) (p : Procedure) : Prop :=
  ∃ h line inner t t' bodySteps bodyLog e, headerLine step.start = .ok ((h, line), inner) ∧
    Run t inner bodySteps bodyLog t' (e :: step.rest) ∧ e.kind = .endWord ∧
    p = complete h line (bodySteps.filterMap Step.expression?) step.start step.rest

theorem Step.Made.completes {Stable : ProcedureTable → Prop} {step : Step}
    (hmade : step.Made Stable log) (hp : step.procedure? = some p) : step.Completes p := by
  obtain ⟨t, inside, t', -, hrun, -⟩ := hmade
  obtain ⟨start, s, rest⟩ := step
  cases hrun with
  | blank | expression => cases hp
  | definition opening body closing complete_eq others =>
    cases hp
    cases others
    exact ⟨_, _, _, _, _, _, _, _, opening, body, closing, complete_eq⟩

theorem Step.Completes.heading? {step : Step} (h : step.Completes p) :
    ∃ heading, Reader.heading? step.start = some heading ∧ p.name = heading.name ∧
      p.params = heading.params ∧ p.line = heading.line := by
  obtain ⟨h, line, inner, _, _, _, _, _, hread, -, -, rfl⟩ := h
  exact ⟨_, heading?_of_headerLine hread, rfl, rfl, rfl⟩

theorem Step.opening?_eq_some_iff {step : Step} :
    step.opening? = some start ↔ ∃ p, step.procedure? = some p ∧ step.start = start := by
  rw [Step.opening?, Option.map_eq_some_iff]

section Complete

variable (hrun : Run table ls steps log table' rest) (hls : Lexed 0 ls)
  (heof : (ahead rest).kind = .eof)

include hrun

theorem Run.completes : ∀ step ∈ log, ∀ p, step.procedure? = some p → step.Completes p := by
  obtain ⟨-, hmade⟩ := hrun.made (fun _ => True) (fun _ _ _ _ _ _ _ => trivial) trivial
  exact fun step hstep p hp => (hmade step hstep).completes hp

/-- The procedures of a log have the names of headers. -/
theorem Run.exists_heading (hp : p ∈ log.filterMap Step.procedure?) :
    ∃ heading ∈ headings ls, p.name = heading.name ∧ p.params = heading.params := by
  obtain ⟨step, hstep, hp⟩ := List.mem_filterMap.1 hp
  obtain ⟨h, line, inner, _, _, _, _, _, hread, -, -, rfl⟩ := hrun.completes step hstep p hp
  exact ⟨_, mem_headings_of_headerLine (hrun.mem_log step hstep).1 hread, rfl, rfl⟩

theorem Run.key_eq (hp : p ∈ log.filterMap Step.procedure?) : p.key = p.name := by
  obtain ⟨heading, hheading, hname, -⟩ := hrun.exists_heading hp
  have hkey := key_of_mem_headings hheading
  rwa [Procedure.key, ← hname] at hkey

/-- What is not the name of a header stays as it was. -/
theorem Run.get?_eq {key : String} (h : ∀ heading ∈ headings ls, key ≠ heading.name) :
    table'.entries.get? key = table.entries.get? key := by
  rw [hrun.table_eq, ProcedureTable.get?_defineAll_of_forall_ne]
  intro p hp
  obtain ⟨heading, hheading, hname, -⟩ := hrun.exists_heading hp
  rw [hrun.key_eq hp, hname]
  exact h heading hheading

include hls heof

/-- The definition of every header is in the log. -/
theorem Run.exists_definition {heading : Procedure} (hheading : heading ∈ headings ls) :
    ∃ p ∈ log.filterMap Step.procedure?, p.name = heading.name ∧ p.params = heading.params := by
  obtain ⟨start, hstart, hheading⟩ := List.mem_filterMap.1 hheading
  obtain ⟨step, hstep, hopening⟩ :=
    List.mem_filterMap.1 ((hrun.openings_perm hls heof).mem_iff.2 hstart)
  obtain ⟨p, hp, rfl⟩ := Step.opening?_eq_some_iff.1 hopening
  obtain ⟨own, hown, hname, hparams, -⟩ := (hrun.completes step hstep p hp).heading?
  cases hheading.symm.trans hown
  exact ⟨p, List.mem_filterMap.2 ⟨step, hstep, hp⟩, hname, hparams⟩

/-- Under the name of a header stands the procedure whose definition ends last. -/
theorem Run.exists_last {heading : Procedure} (hheading : heading ∈ headings ls) :
    ∃ step ∈ log, ∃ p, step.procedure? = some p ∧ p.name = heading.name ∧
      table'.entries.get? heading.name = some p ∧
      ∀ other ∈ log, ∀ q, other.procedure? = some q → q.name = heading.name →
        step.rest.length ≤ other.rest.length := by
  obtain ⟨any, hany, hname, -⟩ := hrun.exists_definition hls heof hheading
  obtain ⟨front, p, back, hsplit, hkey, hback, hget⟩ :=
    ProcedureTable.exists_last_defineAll table ⟨any, hany, (hrun.key_eq hany).symm⟩
  rw [← hrun.table_eq] at hget
  rw [hname] at hkey hback hget
  obtain ⟨before, others, rfl, rfl, hothers⟩ := List.filterMap_eq_append_iff.1 hsplit
  obtain ⟨skipped, step, after, rfl, -, hp, rfl⟩ := List.filterMap_eq_cons_iff.1 hothers
  have hkeys := fun q hq => hrun.key_eq (p := q) hq
  have hpairs := hrun.log_pairwise
  rw [← List.append_assoc] at hpairs hkeys hrun ⊢
  refine ⟨step, by simp, p, hp, ?_, hget, fun other hother q hq hqname => ?_⟩
  · rw [hkey]
    exact (hkeys p (List.mem_filterMap.2 ⟨step, by simp, hp⟩)).symm
  · rcases List.mem_append.1 hother with hbefore | hafter
    · exact Nat.le_of_lt ((List.pairwise_append.1 hpairs).2.2 other hbefore step List.mem_cons_self)
    · rcases List.mem_cons.1 hafter with rfl | hafter
      · exact Nat.le_refl _
      · have hmem : q ∈ after.filterMap Step.procedure? := List.mem_filterMap.2 ⟨other, hafter, hq⟩
        refine absurd ?_ (hback q hmem)
        rw [hkeys q (List.mem_filterMap.2 ⟨other, hother, hq⟩), hqname]

end Complete

/-- What is neither the name of a header nor the new name of an alias stays as it was. -/
theorem Entered.get?_eq {entered : ProcedureTable} {key : String} (h : Entered table ls entered)
    (hheadings : ∀ heading ∈ headings ls, key ≠ heading.name)
    (haliases : ∀ names ∈ directives ls, key ≠ Text.toLower names.2) :
    entered.entries.get? key = table.entries.get? key := by
  rw [ProcedureTable.get?_addAliases_of_forall_ne h.2 haliases,
    ProcedureTable.get?_defineAll_of_forall_ne]
  intro heading hheading
  rw [key_of_mem_headings hheading]
  exact hheadings heading hheading

/-- The table of a program that has been read holds complete procedures under the names of its
headers. -/
theorem headers_completed {keep : Bool} {text : String} {nodes : List Node}
    (hread : readText keep table text = (.ok nodes, table')) :
    ∃ entered steps log rest, Entered table (Lexeme.ofText text) entered ∧
      Run entered (Lexeme.ofText text) steps log table' rest ∧ (ahead rest).kind = .eof ∧
      -- Each word `to` starts one definition, read from its own header to its own end.
      (openings (Lexeme.ofText text)).Nodup ∧
      (log.filterMap Step.opening?).Perm (openings (Lexeme.ofText text)) ∧
      (∀ step ∈ log, ∀ p, step.procedure? = some p → step.Completes p) ∧
      -- Under its name stands the procedure that ends last.
      (∀ heading ∈ headings (Lexeme.ofText text), ∃ step ∈ log, ∃ p, step.procedure? = some p ∧
        p.name = heading.name ∧ table'.entries.get? heading.name = some p ∧
        ∀ other ∈ log, ∀ q, other.procedure? = some q → q.name = heading.name →
          step.rest.length ≤ other.rest.length) ∧
      -- Other entries are those that the aliases have made, and those from before.
      ∀ key, (∀ heading ∈ headings (Lexeme.ofText text), key ≠ heading.name) →
        table'.entries.get? key = entered.entries.get? key ∧
          ((∀ names ∈ directives (Lexeme.ofText text), key ≠ Text.toLower names.2) →
            table'.entries.get? key = table.entries.get? key) := by
  obtain ⟨entered, steps, log, rest, hentered, hrun, heof, -⟩ := program_eq_ok_iff.1 hread
  have hls := lexed_ofText text
  refine ⟨entered, steps, log, rest, hentered, hrun, heof, nodup_openings _,
    hrun.openings_perm hls heof,
    hrun.completes, fun heading hheading => hrun.exists_last hls heof hheading, ?_⟩
  intro key hheadings
  refine ⟨hrun.get?_eq hheadings, fun haliases => ?_⟩
  rw [hrun.get?_eq hheadings, hentered.get?_eq hheadings haliases]

/-- Three definitions, of which one is inside of another and two have the same name. -/
def nestedText : String :=
  "to f\nto g :x\nend\nend\nto F :y\ng :y\nend\nalias \"f \"h\n"

theorem headers_completed_nested :
    ∃ nodes table', readText false .empty nestedText = (.ok nodes, table') ∧
      ∃ (step : Step) (p : Procedure), step.Completes p ∧ p.params = ["y"] ∧
      table'.entries.get? "f" = some p := by
  have hok : (readText false .empty nestedText).1.isOk = true := by
    rw [readText, Lexeme.ofText_eq]
    decide +kernel
  have hnames : (headings (Lexeme.ofText nestedText)).map (·.name) = ["f", "g", "f"] := by
    rw [Lexeme.ofText_eq]
    decide +kernel
  have hparams : ((readText false .empty nestedText).2.entries.get? "f").map (·.params) =
      some ["y"] := by
    rw [readText, Lexeme.ofText_eq]
    decide +kernel
  obtain ⟨nodes, table', hread⟩ := exists_of_isOk hok
  obtain ⟨_, _, _, _, -, -, -, -, -, hcompletes, hlast, -⟩ := headers_completed hread
  obtain ⟨heading, hheading, hname⟩ : ∃ heading ∈ headings (Lexeme.ofText nestedText),
      heading.name = "f" := by
    rw [← List.mem_map, hnames]
    exact List.mem_cons_self
  obtain ⟨step, hstep, p, hp, -, hget, -⟩ := hlast heading hheading
  rw [hname] at hget
  refine ⟨nodes, table', hread, step, p, hcompletes step hstep p hp, ?_, hget⟩
  rw [hread, hget] at hparams
  exact Option.some.inj hparams

end Reader

end Logo
