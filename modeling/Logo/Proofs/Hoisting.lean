import Logo.Proofs.Aliases
import Logo.Proofs.Boundaries
import Logo.Proofs.Shape
import Logo.Proofs.WholeLines
import Mathlib.Data.List.Basic

/-!
# Moving definitions

Where a definition stands among the lines of a program does not matter, as long as names are defined
once.  The headers have settled the numbers of inputs before any statement is read, so the
statements on other lines are read as before; and procedures with different names may be stored in
any order.

The one thing that depends on the order of lines are the aliases, because an alias may have been
made for the name of another one.  Moving a definition leaves the rest of a program as it is if, and
only if, the aliases can be made in the new order with the same result (`definition_moved`); they
cannot always be (`definition_moved_fails`).
-/

namespace Logo

/-! ## Tables that differ in lines -/

namespace ProcedureTable

/-- The tables differ at most in the lines where definitions start. -/
def SameUpToLines (table table' : ProcedureTable) : Prop :=
  ∀ key, (table.entries.get? key).map Procedure.unplaced =
    (table'.entries.get? key).map Procedure.unplaced

variable {table table' : ProcedureTable} {p : Procedure} {ps ps' : List Procedure} {key : String}

theorem get?_defineAll_of_mem (hnodup : (ps.map Procedure.key).Nodup) (hp : p ∈ ps) :
    (table.defineAll ps).entries.get? p.key = some p := by
  obtain ⟨front, back, rfl⟩ := List.append_of_mem hp
  refine get?_defineAll_of_last fun q hq heq => ?_
  rw [List.map_append, List.map_cons, List.nodup_append, List.nodup_cons] at hnodup
  exact hnodup.2.1.1 (List.mem_map.2 ⟨q, hq, heq.symm⟩)

theorem map_key_eq_map_unplaced (ps : List Procedure) :
    ps.map Procedure.key = (ps.map Procedure.unplaced).map Procedure.key := by
  rw [List.map_map]
  rfl

namespace SameUpToLines

theorem symm (h : SameUpToLines table table') : SameUpToLines table' table :=
  fun key => (h key).symm

theorem trans {table'' : ProcedureTable} (h : SameUpToLines table table')
    (h' : SameUpToLines table' table'') : SameUpToLines table table'' :=
  fun key => (h key).trans (h' key)

theorem sameArities (h : SameUpToLines table table') : SameArities table table' := by
  intro key
  have hkey := congrArg (Option.map Procedure.arity) (h key)
  rwa [Option.map_map, Option.map_map] at hkey

/-- Procedures with different names may be stored in any order. -/
theorem defineAll (h : SameUpToLines table table') (hnodup : (ps.map Procedure.key).Nodup)
    (hperm : (ps.map Procedure.unplaced).Perm (ps'.map Procedure.unplaced)) :
    SameUpToLines (table.defineAll ps) (table'.defineAll ps') := by
  have hnodup' : (ps'.map Procedure.key).Nodup := by
    rw [map_key_eq_map_unplaced, ← (hperm.map Procedure.key).nodup_iff, ← map_key_eq_map_unplaced]
    exact hnodup
  intro key
  by_cases hkey : ∃ p ∈ ps, key = p.key
  · obtain ⟨p, hp, rfl⟩ := hkey
    obtain ⟨q, hq, hunplaced⟩ := List.mem_map.1 (hperm.mem_iff.1 (List.mem_map_of_mem hp))
    rw [get?_defineAll_of_mem hnodup hp, ← Procedure.key_eq_of_unplaced_eq hunplaced,
      get?_defineAll_of_mem hnodup' hq, Option.map_some, Option.map_some, hunplaced]
  · have hother : ¬ ∃ q ∈ ps', key = q.key := by
      rintro ⟨q, hq, rfl⟩
      obtain ⟨p, hp, hunplaced⟩ := List.mem_map.1 (hperm.mem_iff.2 (List.mem_map_of_mem hq))
      exact hkey ⟨p, hp, (Procedure.key_eq_of_unplaced_eq hunplaced).symm⟩
    rw [get?_defineAll_of_forall_ne fun p hp heq => hkey ⟨p, hp, heq⟩,
      get?_defineAll_of_forall_ne fun q hq heq => hother ⟨q, hq, heq⟩]
    exact h key

/-- Aliases can be made alike in both tables. -/
theorem addAliases {aliases : List (String × String)} {entered : ProcedureTable}
    (h : SameUpToLines table table') (haliases : table.addAliases aliases = some entered) :
    ∃ entered', table'.addAliases aliases = some entered' ∧ SameUpToLines entered entered' := by
  induction aliases generalizing table table' with
  | nil =>
    cases haliases
    exact ⟨table', rfl, h⟩
  | cons names aliases ih =>
    obtain ⟨table₁, hfirst, hothers⟩ := Option.bind_eq_some_iff.1 haliases
    obtain ⟨p, hp, hinsert⟩ := Option.map_eq_some_iff.1 hfirst
    have hlookup := h (Text.toLower names.1)
    rw [show table.entries.get? (Text.toLower names.1) = some p from hp, Option.map_some] at hlookup
    obtain ⟨q, hq, hunplaced⟩ := Option.map_eq_some_iff.1 hlookup.symm
    have hfirst' : table'.addAlias? names.1 names.2 =
        some ⟨table'.entries.insert (Text.toLower names.2) q⟩ := by
      rw [addAlias?, show table'.lookup? names.1 = some q from hq, Option.map_some]
    have hsame : SameUpToLines table₁ ⟨table'.entries.insert (Text.toLower names.2) q⟩ := by
      intro key
      rw [get?_addAlias? hfirst, get?_addAlias? hfirst']
      split
      · exact h _
      · exact h key
    obtain ⟨entered', hentered', hsame'⟩ := ih hsame hothers
    refine ⟨entered', ?_, hsame'⟩
    rw [addAliases_cons, hfirst', Option.bind_some]
    exact hentered'

end SameUpToLines

end ProcedureTable

namespace Reader

open Lexeme

variable {table table' entered t t₀ t₁ t₂ t₃ t₄ : ProcedureTable} {ls rest : List Lexeme}
  {steps log : List Step} {p : Procedure}

/-! ## The headers of a log -/

/-- What the first pass knows of a procedure. -/
def headingOf (p : Procedure) : Procedure :=
  { p with body := .user [], source := none }

section Headings

variable (hrun : Run table ls steps log table' rest) (hls : Lexed 0 ls)
  (heof : (ahead rest).kind = .eof)

include hrun hls heof

theorem Run.headings_perm : (headings ls).Perm ((log.filterMap Step.procedure?).map headingOf) := by
  have hperm := ((hrun.openings_perm hls heof).filterMap heading?).symm
  refine hperm.trans (.of_eq ?_)
  rw [List.filterMap_filterMap, List.map_filterMap]
  refine List.filterMap_congr fun step hstep => ?_
  cases hp : step.procedure? with
  | none => rw [Step.opening?, hp]; rfl
  | some p =>
    obtain ⟨h, line, inner, _, _, _, _, _, hread, -, -, hcomplete⟩ := hrun.completes step hstep p hp
    rw [Step.opening?, hp, Option.map_some, Option.bind_some, heading?_of_headerLine hread,
      hcomplete]
    rfl

theorem Run.isSome_heading? : ∀ start ∈ openings ls, (heading? start).isSome = true := by
  intro start hstart
  obtain ⟨step, hstep, hopening⟩ :=
    List.mem_filterMap.1 ((hrun.openings_perm hls heof).mem_iff.2 hstart)
  obtain ⟨p, hp, rfl⟩ := Step.opening?_eq_some_iff.1 hopening
  obtain ⟨heading, hheading, -⟩ := (hrun.completes step hstep p hp).heading?
  rw [hheading]
  rfl

/-- Procedures of the log have different keys if headers have different names. -/
theorem Run.nodup_keys (hnodup : ((headings ls).map (·.name)).Nodup) :
    ((log.filterMap Step.procedure?).map Procedure.key).Nodup := by
  have hnames : ((log.filterMap Step.procedure?).map headingOf).map (·.name) =
      (log.filterMap Step.procedure?).map Procedure.key := by
    rw [List.map_map]
    exact List.map_congr_left fun p hp => (hrun.key_eq hp).symm
  rw [← hnames]
  exact ((hrun.headings_perm hls heof).map _).nodup_iff.1 hnodup

end Headings

/-- Names that are defined once, and not by aliases, have the numbers of inputs of their headers. -/
theorem Entered.settled (h : Entered table ls entered) (hnodup : ((headings ls).map (·.name)).Nodup)
    (haliases : ∀ names ∈ directives ls, ∀ heading ∈ headings ls,
        heading.name ≠ Text.toLower names.2) :
    Settled entered ls := by
  intro heading hheading
  have hkeys : ((headings ls).map Procedure.key).Nodup := by
    rwa [List.map_congr_left fun p hp => key_of_mem_headings hp]
  have hother : ∀ names ∈ directives ls, heading.key ≠ Text.toLower names.2 := by
    intro names hnames
    rw [key_of_mem_headings hheading]
    exact haliases names hnames heading hheading
  have hget : entered.entries.get? heading.key = some heading := by
    rw [ProcedureTable.get?_addAliases_of_forall_ne h.2 hother,
      ProcedureTable.get?_defineAll_of_mem hkeys hheading]
  rw [ProcedureTable.arity?, ProcedureTable.lookup?,
    show Text.toLower heading.name = heading.key from rfl, hget]
  rfl

/-! ## Swapping lines -/

/-- Groups of lines may be swapped: the statements on them are the same, in their new order. -/
theorem Run.swap {front first second back front' first' second' back' : List Lexeme}
    {steps₀ steps₁ steps₂ steps₃ log₀ log₁ log₂ log₃ : List Step}
    (hfront : Run t₀ (front ++ (first ++ (second ++ back))) steps₀ log₀ t₁
        (first ++ (second ++ back)))
    (hfirst : Run t₁ (first ++ (second ++ back)) steps₁ log₁ t₂ (second ++ back))
    (hsecond : Run t₂ (second ++ back) steps₂ log₂ t₃ back)
    (hback : Run t₃ back steps₃ log₃ t₄ rest)
    (hlines : EndsLine front ∧ EndsLine first ∧ EndsLine second)
    (harities : t₁.SameArities t₀ ∧ t₂.SameArities t₀ ∧ t₃.SameArities t₀)
    (halike : Alike front front' ∧ Alike first first' ∧ Alike second second' ∧ Alike back back') :
    ∃ steps log t rest', Run t₀ (front' ++ (second' ++ (first' ++ back'))) steps log t rest' ∧
      unplacedStatements steps = unplacedStatements (steps₀ ++ (steps₂ ++ (steps₁ ++ steps₃))) ∧
      unplacedStatements log = unplacedStatements (log₀ ++ (log₂ ++ (log₁ ++ log₃))) ∧
      Alike rest rest' := by
  obtain ⟨hfrontLines, hfirstLines, hsecondLines⟩ := hlines
  obtain ⟨harity₁, harity₂, harity₃⟩ := harities
  obtain ⟨hfrontAlike, hfirstAlike, hsecondAlike, hbackAlike⟩ := halike
  obtain ⟨s₀, l₀, u₁, hrun₀, hs₀, hl₀, hu₁⟩ :=
    hfront.transport_lines hfrontLines (fun _ => rfl) hfrontAlike (second' ++ (first' ++ back'))
  obtain ⟨s₂, l₂, u₂, hrun₂, hs₂, hl₂, hu₂⟩ := hsecond.transport_lines hsecondLines
    ((harity₂.trans harity₁.symm).trans hu₁) hsecondAlike (first' ++ back')
  obtain ⟨s₁, l₁, u₃, hrun₁, hs₁, hl₁, hu₃⟩ := hfirst.transport_lines hfirstLines
    ((harity₁.trans harity₃.symm).trans hu₂) hfirstAlike back'
  obtain ⟨used, rfl, htransport⟩ := hback.transport
  obtain ⟨used', rest', rfl, hused, hrest⟩ := hbackAlike.exists_append
  obtain ⟨s₃, l₃, u₄, hrun₃, hs₃, hl₃, -⟩ := htransport u₃ used' rest'
    ((harity₃.trans harity₂.symm).trans hu₃) hused (.of_alike hrest)
  refine ⟨_, _, u₄, rest', hrun₀.append (hrun₂.append (hrun₁.append hrun₃)), ?_, ?_, hrest⟩
  · simp only [unplacedStatements_append, hs₀, hs₁, hs₂, hs₃]
  · simp only [unplacedStatements_append, hl₀, hl₁, hl₂, hl₃]

/-! ## Moving a definition -/

/-- The statements `steps` of a program end where the front of its text does. -/
def EndsAt (table : ProcedureTable) (text front : String) (steps : List Step) : Prop :=
  ∃ entered log t, Entered table (ofText text) entered ∧
    Run entered (ofText text) steps log t ((ofText text).drop ((ofText front).length - 1))

/-- Whether the statements are a definition and the end of its last line. -/
def isDefinition : List Step → Bool
  | [⟨_, .definition _, _⟩, ⟨_, .blank, _⟩] => true
  | _ => false

/-- Two neighbouring groups of lines that hold whole statements change places; one of them is a
definition. -/
inductive DefinitionMoved (table : ProcedureTable) : String → String → Prop
  | swap {front first second back : String} {steps₀ steps₁ steps₂ : List Step}
      (front_lines : WholeLines front.toList) (first_lines : WholeLines first.toList)
      (second_lines : WholeLines second.toList)
      (front_ends : EndsAt table (front ++ first ++ second ++ back) front steps₀)
      (first_ends : EndsAt table (front ++ first ++ second ++ back) (front ++ first)
        (steps₀ ++ steps₁))
      (second_ends : EndsAt table (front ++ first ++ second ++ back) (front ++ first ++ second)
        (steps₀ ++ steps₁ ++ steps₂))
      (definition : isDefinition steps₁ = true ∨ isDefinition steps₂ = true) :
      DefinitionMoved table (front ++ first ++ second ++ back) (front ++ second ++ first ++ back)

theorem length_ofText (text : String) : (ofText text).length - 1 = (inText text).length := by
  rw [ofText_eq_inText, List.length_append, List.length_singleton, Nat.add_sub_cancel]

theorem length_inText_le {front : String} (h : WholeLines front.toList) (back : String) :
    (inText front).length ≤ (ofText (front ++ back)).length := by
  have hpieces := congrArg List.length (map_piece_ofText (front ++ back))
  have hfront := congrArg List.length (map_piece_inText front)
  rw [String.toList_append, (Token.pieces_append_lines 0 h back.toList).1] at hpieces
  simp only [List.length_map, List.length_append] at hpieces hfront
  omega

/-- Lines at whose end a statement ends are outside of brackets. -/
theorem EndsAt.closedLines {front back : String} (h : EndsAt table (front ++ back) front steps)
    (hfront : WholeLines front.toList) : ClosedLines front := by
  obtain ⟨entered, log, t, -, hrun⟩ := h
  obtain ⟨used, hused, hdepth, -⟩ := (hrun.crosses (lexed_ofText _)).depth
  refine .of_depthBehind hfront hused ?_ hdepth
  have hlength := congrArg List.length hused
  have hle := length_inText_le hfront back
  rw [length_ofText, List.length_append, List.length_drop] at hlength
  omega

/-- The lexemes of closed lines, part by part. -/
theorem exists_parts {front first second : String} (hfront : ClosedLines front)
    (hfirst : ClosedLines first) (hsecond : ClosedLines second) (back : String) :
    ∃ a b c d, ofText (front ++ first ++ second ++ back) = a ++ (b ++ (c ++ d)) ∧
      Alike (inText front) a ∧ Alike (inText first) b ∧ Alike (inText second) c ∧
      Alike (ofText back) d := by
  have hsecondBack := hsecond.alike_ofText_append back
  have hfirstBack := (hfirst.alike_ofText_append (second ++ back)).trans (.append .refl hsecondBack)
  have hall :=
    (hfront.alike_ofText_append (first ++ (second ++ back))).trans (.append .refl hfirstBack)
  rw [← String.append_assoc, ← String.append_assoc] at hall
  obtain ⟨a, more, hmore, ha, halike⟩ := hall.symm.exists_append
  obtain ⟨b, more, rfl, hb, halike⟩ := halike.exists_append
  obtain ⟨c, d, rfl, hc, hd⟩ := halike.exists_append
  exact ⟨a, b, c, d, hmore, ha, hb, hc, hd⟩

theorem endsLine_of_alike {text : String} {ls : List Lexeme} (h : ClosedLines text)
    (halike : Alike (inText text) ls) : EndsLine ls := by
  intro l hl
  have hlast := congrArg List.getLast? halike
  rw [List.getLast?_map, List.getLast?_map, show ls.getLast? = some l from hl,
    Option.map_some] at hlast
  obtain ⟨m, hm, hunplaced⟩ := Option.map_eq_some_iff.1 hlast
  exact (kind_eq_of_unplaced_eq hunplaced).trans (h.newline_of_getLast? m hm)

/-- Groups of lines at whose ends statements end are closed. -/
theorem closedLines_of_endsAt {front first second back : String} {steps₀ steps₁ steps₂ : List Step}
    (hfront : WholeLines front.toList) (hfirst : WholeLines first.toList)
    (hsecond : WholeLines second.toList)
    (hends₀ : EndsAt table (front ++ first ++ second ++ back) front steps₀)
    (hends₁ : EndsAt table (front ++ first ++ second ++ back) (front ++ first) steps₁)
    (hends₂ : EndsAt table (front ++ first ++ second ++ back) (front ++ first ++ second) steps₂) :
    ClosedLines front ∧ ClosedLines first ∧ ClosedLines second := by
  have hclosed₀ : ClosedLines front := by
    rw [String.append_assoc, String.append_assoc] at hends₀
    exact hends₀.closedLines hfront
  have hclosed₁ : ClosedLines (front ++ first) := by
    rw [String.append_assoc] at hends₁
    refine hends₁.closedLines ?_
    rw [String.toList_append]
    exact hfront.append hfirst
  have hclosed₂ : ClosedLines (front ++ first ++ second) := by
    refine hends₂.closedLines ?_
    rw [String.toList_append]
    exact hclosed₁.lines.append hsecond
  exact ⟨hclosed₀, hclosed₀.of_append hfirst hclosed₁, hclosed₁.of_append hsecond hclosed₂⟩

theorem directives_ofText_append {front first second : String} (hfront : ClosedLines front)
    (hfirst : ClosedLines first) (hsecond : ClosedLines second) (back : String) :
    directives (ofText (front ++ first ++ second ++ back)) = directives (inText front) ++
      (directives (inText first) ++ (directives (inText second) ++ directives (ofText back))) := by
  obtain ⟨a, b, c, d, hls, ha, hb, hc, hd⟩ := exists_parts hfront hfirst hsecond back
  rw [hls, directives_append_lines (endsLine_of_alike hfront ha),
    directives_append_lines (endsLine_of_alike hfirst hb),
    directives_append_lines (endsLine_of_alike hsecond hc), directives_of_alike ha,
    directives_of_alike hb, directives_of_alike hc, directives_of_alike hd]

/-- The same aliases are made, in another order. -/
theorem DefinitionMoved.directives_perm {text text' : String}
    (h : DefinitionMoved table text text') :
    (directives (ofText text')).Perm (directives (ofText text)) := by
  cases h with
  | swap front_lines first_lines second_lines front_ends first_ends second_ends definition =>
    obtain ⟨hfront, hfirst, hsecond⟩ :=
      closedLines_of_endsAt front_lines first_lines second_lines front_ends first_ends second_ends
    rw [directives_ofText_append hfront hfirst hsecond,
      directives_ofText_append hfront hsecond hfirst]
    exact (List.perm_append_comm_assoc _ _ _).append_left _

theorem filterMap_of_isDefinition (h : isDefinition steps = true) :
    steps.filterMap Step.expression? = [] := by
  unfold isDefinition at h
  split at h
  · rfl
  · cases h

theorem EndsAt.run {text front : String} (h : EndsAt table text front steps)
    (hentered : Entered table (ofText text) entered) {used : List Lexeme}
    (hused : ofText text = used ++ rest) (hlength : (inText front).length = used.length) :
    ∃ log t, Run entered (ofText text) steps log t rest := by
  obtain ⟨entered', log, t, hentered', hrun⟩ := h
  cases hentered.unique hentered'
  rw [length_ofText, hlength, hused, List.drop_left, ← hused] at hrun
  exact ⟨log, t, hrun⟩

/-- The run through a text consists of the runs between the ends of statements in it. -/
theorem Run.exists_parts {text front₁ front₂ front₃ : String} {a b c d : List Lexeme}
    {steps₀ steps₁ steps₂ : List Step} (hrun : Run entered (ofText text) steps log table' rest)
    (heof : (ahead rest).kind = .eof) (hentered : Entered table (ofText text) entered)
    (hls : ofText text = a ++ (b ++ (c ++ d))) (hends₁ : EndsAt table text front₁ steps₀)
    (hlength₁ : (inText front₁).length = a.length)
    (hends₂ : EndsAt table text front₂ (steps₀ ++ steps₁))
    (hlength₂ : (inText front₂).length = (a ++ b).length)
    (hends₃ : EndsAt table text front₃ (steps₀ ++ steps₁ ++ steps₂))
    (hlength₃ : (inText front₃).length = (a ++ b ++ c).length) :
    ∃ t₁ t₂ t₃ log₀ log₁ log₂ steps₃ log₃,
      Run entered (ofText text) steps₀ log₀ t₁ (b ++ (c ++ d)) ∧
      Run t₁ (b ++ (c ++ d)) steps₁ log₁ t₂ (c ++ d) ∧ Run t₂ (c ++ d) steps₂ log₂ t₃ d ∧
      Run t₃ d steps₃ log₃ table' rest ∧ steps = steps₀ ++ steps₁ ++ steps₂ ++ steps₃ ∧
      log = log₀ ++ log₁ ++ log₂ ++ log₃ := by
  have hls₂ : ofText text = (a ++ b) ++ (c ++ d) := by rw [hls, List.append_assoc]
  have hls₃ : ofText text = (a ++ b ++ c) ++ d := by rw [hls₂, List.append_assoc (a ++ b)]
  obtain ⟨log₀, t₁, hrun₀⟩ := hends₁.run hentered hls hlength₁
  obtain ⟨_, t₂, hrun₀₁⟩ := hends₂.run hentered hls₂ hlength₂
  obtain ⟨_, t₃, hrun₀₂⟩ := hends₃.run hentered hls₃ hlength₃
  obtain ⟨_, log₁, hsteps₁, rfl, hrun₁⟩ := hrun₀.exists_others hrun₀₁ fun _ => by simp
  obtain ⟨_, log₂, hsteps₂, rfl, hrun₂⟩ := hrun₀₁.exists_others hrun₀₂ fun _ => by simp
  obtain ⟨steps₃, log₃, rfl, rfl, hrun₃⟩ := hrun₀₂.exists_others hrun fun hopens => by
    rw [heof] at hopens
    cases hopens
  cases List.append_cancel_left hsteps₁
  cases List.append_cancel_left hsteps₂
  exact ⟨t₁, t₂, t₃, log₀, log₁, log₂, steps₃, log₃, hrun₀, hrun₁, hrun₂, hrun₃, rfl, rfl⟩

/-- The statements are read alike from the lines in their new order. -/
theorem DefinitionMoved.exists_run {text text' : String} (h : DefinitionMoved table text text')
    (hentered : Entered table (ofText text) entered) (hsettled : Settled entered (ofText text))
    (hrun : Run entered (ofText text) steps log table' rest) (heof : (ahead rest).kind = .eof) :
    ∃ steps' log' t rest', Run entered (ofText text') steps' log' t rest' ∧
      (ahead rest').kind = .eof ∧
      steps'.filterMap Step.expression? = steps.filterMap Step.expression? ∧
      (unplacedStatements log').Perm (unplacedStatements log) := by
  cases h with
  | @swap front first second back steps₀ steps₁ steps₂ front_lines first_lines second_lines
      front_ends first_ends second_ends definition =>
    obtain ⟨hfront, hfirst, hsecond⟩ :=
      closedLines_of_endsAt front_lines first_lines second_lines front_ends first_ends second_ends
    obtain ⟨a, b, c, d, hls, ha, hb, hc, hd⟩ := exists_parts hfront hfirst hsecond back
    obtain ⟨a', c', b', d', hls', ha', hc', hb', hd'⟩ := exists_parts hfront hsecond hfirst back
    have hlength₂ : (inText (front ++ first)).length = (a ++ b).length := by
      rw [(hfront.alike_inText_append first).length_eq, List.length_append, List.length_append,
        ha.length_eq, hb.length_eq]
    have hlength₃ : (inText (front ++ first ++ second)).length = (a ++ b ++ c).length := by
      rw [((hfront.append hfirst).alike_inText_append second).length_eq, List.length_append,
        List.length_append, hlength₂, hc.length_eq]
    obtain ⟨t₁, t₂, t₃, log₀, log₁, log₂, steps₃, log₃, hrun₀, hrun₁, hrun₂, hrun₃, rfl, rfl⟩ :=
      hrun.exists_parts heof hentered hls front_ends ha.length_eq first_ends hlength₂
        second_ends hlength₃
    have harity₁ := (hrun₀.made_sameArities hsettled).1
    have harity₂ := ((hrun₀.append hrun₁).made_sameArities hsettled).1
    have harity₃ := (((hrun₀.append hrun₁).append hrun₂).made_sameArities hsettled).1
    rw [hls] at hrun₀
    obtain ⟨steps', log', t, rest', hrun', hsteps', hlog', hrest'⟩ :=
      Run.swap hrun₀ hrun₁ hrun₂ hrun₃
      ⟨endsLine_of_alike hfront ha, endsLine_of_alike hfirst hb, endsLine_of_alike hsecond hc⟩
      ⟨harity₁, harity₂, harity₃⟩
      ⟨ha.symm.trans ha', hb.symm.trans hb', hc.symm.trans hc', hd.symm.trans hd'⟩
    refine ⟨steps', log', t, rest', hls' ▸ hrun', ?_, ?_, ?_⟩
    · rw [kind_ahead_of_alike hrest', heof]
    · rw [filterMap_expression?_eq hsteps']
      simp only [List.filterMap_append]
      rcases definition with h | h <;> simp [filterMap_of_isDefinition h]
    · rw [hlog']
      simp only [unplacedStatements_append, List.append_assoc]
      exact (List.perm_append_comm_assoc _ _ _).append_left _

theorem map_unplaced_procedures (log : List Step) :
    (log.filterMap Step.procedure?).map Procedure.unplaced =
      (unplacedStatements log).filterMap fun s => Step.procedure? ⟨[], s, []⟩ := by
  rw [List.map_filterMap, unplacedStatements, List.filterMap_map]
  refine List.filterMap_congr fun step _ => ?_
  obtain ⟨_, s, _⟩ := step
  cases s <;> rfl

theorem map_unplaced_headingOf (ps : List Procedure) :
    (ps.map headingOf).map Procedure.unplaced = (ps.map Procedure.unplaced).map headingOf := by
  rw [List.map_map, List.map_map]
  rfl

theorem filterMap_node?_false (steps : List Step) :
    steps.filterMap (Step.node? false) = steps.filterMap Step.expression? := by
  refine List.filterMap_congr fun step _ => ?_
  obtain ⟨_, s, _⟩ := step
  cases s <;> rfl

/-- Without the definitions that are kept, the nodes of a program are its expressions. -/
theorem Run.filter_nodes (hrun : Run entered ls steps log table' rest)
    (hentered : Entered table ls entered) (hls : Lexed 0 ls) (keep : Bool) :
    (steps.filterMap (Step.node? keep)).filter (·.type != .procedure) =
      steps.filterMap Step.expression? := by
  have hshaped : ∀ step ∈ log, ∀ node, step.expression? = some node → node.Shaped table' false :=
    hrun.shaped hentered hls nofun
  have htype : ∀ step ∈ steps, ∀ node, step.expression? = some node → node.type ≠ .procedure :=
    fun step hstep node hnode => (hshaped step (hrun.steps_subset step hstep) node hnode).type_ne
  clear hrun hshaped
  induction steps with
  | nil => rfl
  | cons step steps ih =>
    rw [List.forall_mem_cons] at htype
    have ih := ih htype.2
    obtain ⟨start, s, rest⟩ := step
    cases s with
    | blank => exact ih
    | expression node =>
      have hnode : (node.type != .procedure) = true := bne_iff_ne.2 (htype.1 node rfl)
      calc ((node :: steps.filterMap (Step.node? keep)).filter (·.type != .procedure))
        _ = node :: (steps.filterMap (Step.node? keep)).filter (·.type != .procedure) :=
          List.filter_cons_of_pos hnode
        _ = node :: steps.filterMap Step.expression? := by rw [ih]
    | definition p => cases keep <;> exact ih

section Moved

variable {text text' : String} (hmoved : DefinitionMoved table text text')
  (hentered : Entered table (ofText text) entered)
  (hrun : Run entered (ofText text) steps log table' rest) (heof : (ahead rest).kind = .eof)
  (hnames : ((headings (ofText text)).map (·.name)).Nodup)
  (htargets : ∀ names ∈ directives (ofText text), ∀ heading ∈ headings (ofText text),
    heading.name ≠ Text.toLower names.2)

include hmoved hentered hrun heof hnames htargets

theorem DefinitionMoved.headings_perm :
    ((headings (ofText text)).map Procedure.unplaced).Perm
      ((headings (ofText text')).map Procedure.unplaced) := by
  have hls := lexed_ofText text
  obtain ⟨steps', log', t, rest', hrun', heof', -, hlog⟩ :=
    hmoved.exists_run hentered (hentered.settled hnames htargets) hrun heof
  have hold := (hrun.headings_perm hls heof).map Procedure.unplaced
  have hnew := (hrun'.headings_perm (lexed_ofText text') heof').map Procedure.unplaced
  rw [map_unplaced_headingOf, map_unplaced_procedures] at hold hnew
  exact hold.trans (((hlog.filterMap _).map headingOf).symm.trans hnew.symm)

theorem DefinitionMoved.opened_sameUpToLines :
    (table.defineAll (headings (ofText text))).SameUpToLines
      (table.defineAll (headings (ofText text'))) := by
  have hkeys : ((headings (ofText text)).map Procedure.key).Nodup := by
    rwa [List.map_congr_left fun p hp => key_of_mem_headings hp]
  exact .defineAll (fun _ => rfl) hkeys (hmoved.headings_perm hentered hrun heof hnames htargets)

/-- If the aliases can be made in the new order, the lines are read with the same outcome. -/
theorem DefinitionMoved.exists_entered {entered' : ProcedureTable}
    (haliases : (table.defineAll (headings (ofText text))).addAliases (directives (ofText text')) =
        some entered') (hsame : entered.SameUpToLines entered') :
    ∃ entered'' steps' log' table'' rest', Entered table (ofText text') entered'' ∧
      Run entered'' (ofText text') steps' log' table'' rest' ∧ (ahead rest').kind = .eof ∧
      steps'.filterMap Step.expression? = steps.filterMap Step.expression? ∧
      table'.SameUpToLines table'' := by
  have hls := lexed_ofText text
  obtain ⟨steps₁, log₁, t₁, rest', hrun₁, heof', hsteps₁, hlog₁⟩ :=
    hmoved.exists_run hentered (hentered.settled hnames htargets) hrun heof
  obtain ⟨entered'', haliases', hsame'⟩ :=
    (hmoved.opened_sameUpToLines hentered hrun heof hnames htargets).addAliases haliases
  have hsame := hsame.trans hsame'
  -- The same statements are read once more, from the table that the new text starts with.
  obtain ⟨used, hused, htransport⟩ := hrun₁.transport
  obtain ⟨steps₂, log₂, table'', hrun₂, hsteps₂, hlog₂, -⟩ :=
    htransport entered'' used rest' hsame.sameArities .refl .refl
  rw [← hused] at hrun₂
  have hprocedures : ((log.filterMap Step.procedure?).map Procedure.unplaced).Perm
      ((log₂.filterMap Step.procedure?).map Procedure.unplaced) := by
    rw [map_unplaced_procedures, map_unplaced_procedures, hlog₂]
    exact (hlog₁.filterMap _).symm
  refine ⟨entered'', steps₂, log₂, table'', rest',
    ⟨hrun₁.isSome_heading? (lexed_ofText text') heof', haliases'⟩,
    hrun₂, heof', (filterMap_expression?_eq hsteps₂).trans hsteps₁, ?_⟩
  rw [hrun.table_eq, hrun₂.table_eq]
  exact hsame.defineAll (hrun.nodup_keys hls heof hnames) hprocedures

/-- If both texts have the same outcome, the aliases have been the same in both orders. -/
theorem DefinitionMoved.entered_sameUpToLines {entered'' table'' : ProcedureTable}
    {steps' log' : List Step} {rest' : List Lexeme}
    (hentered' : Entered table (ofText text') entered'')
    (hrun' : Run entered'' (ofText text') steps' log' table'' rest')
    (hsame : table'.SameUpToLines table'') : entered.SameUpToLines entered'' := by
  intro key
  by_cases hkey : ∃ heading ∈ headings (ofText text), key = heading.name
  · -- No alias has the name of a definition.
    obtain ⟨heading, hheading, rfl⟩ := hkey
    have hother : ∀ names ∈ directives (ofText text), heading.name ≠ Text.toLower names.2 :=
      fun names hdirective => htargets names hdirective heading hheading
    rw [ProcedureTable.get?_addAliases_of_forall_ne hentered.2 hother,
      ProcedureTable.get?_addAliases_of_forall_ne hentered'.2 fun names hdirective =>
        hother names (hmoved.directives_perm.mem_iff.1 hdirective)]
    exact hmoved.opened_sameUpToLines hentered hrun heof hnames htargets heading.name
  · have hperm := hmoved.headings_perm hentered hrun heof hnames htargets
    have hother : ∀ heading ∈ headings (ofText text'), key ≠ heading.name := by
      rintro heading hheading rfl
      obtain ⟨old, hold, hunplaced⟩ :=
        List.mem_map.1 (hperm.mem_iff.2 (List.mem_map_of_mem hheading))
      exact hkey ⟨old, hold, (congrArg Procedure.name hunplaced).symm⟩
    rw [← hrun.get?_eq fun heading hheading heq => hkey ⟨heading, hheading, heq⟩,
      ← hrun'.get?_eq hother]
    exact hsame key

end Moved

/-- The aliases can be made in both orders, and the tables that result are the same. -/
def AliasesAgree (table : ProcedureTable) (aliases aliases' : List (String × String)) : Prop :=
  ∃ entered entered', table.addAliases aliases = some entered ∧
    table.addAliases aliases' = some entered' ∧ entered.SameUpToLines entered'

/-- A definition may be moved to another place between the statements of a program if, and only if,
the aliases have the same effect in the new order. -/
theorem definition_moved {keep : Bool} {text text' : String} {nodes : List Node}
    (hread : readText keep table text = (.ok nodes, table'))
    (hnames : ((headings (ofText text)).map (·.name)).Nodup)
    (htargets : ∀ names ∈ directives (ofText text), ∀ heading ∈ headings (ofText text),
      heading.name ≠ Text.toLower names.2)
    (hmoved : DefinitionMoved table text text') :
    (∃ nodes' table'', readText keep table text' = (.ok nodes', table'') ∧
      (keep = false → nodes' = nodes) ∧
      nodes'.filter (·.type != .procedure) = nodes.filter (·.type != .procedure) ∧
      table'.SameUpToLines table'') ↔
    AliasesAgree (table.defineAll (headings (ofText text))) (directives (ofText text))
      (directives (ofText text')) := by
  obtain ⟨entered, steps, log, rest, hentered, hrun, heof, rfl⟩ := program_eq_ok_iff.1 hread
  constructor
  · rintro ⟨nodes', table'', hread', -, -, hsame⟩
    obtain ⟨entered'', steps', log', rest', hentered', hrun', -⟩ := program_eq_ok_iff.1 hread'
    have hopened := hmoved.opened_sameUpToLines hentered hrun heof hnames htargets
    obtain ⟨entered', haliases', hsame'⟩ := hopened.symm.addAliases hentered'.2
    have hsame'' :=
      hmoved.entered_sameUpToLines hentered hrun heof hnames htargets hentered' hrun' hsame
    exact ⟨entered, entered', hentered.2, haliases', hsame''.trans hsame'⟩
  · rintro ⟨entered₁, entered', haliases, haliases', hsame⟩
    cases Option.some.inj (haliases.symm.trans hentered.2)
    obtain ⟨entered'', steps', log', table'', rest', hentered', hrun', heof',
        hexpressions, hsame'⟩ :=
      hmoved.exists_entered hentered hrun heof hnames htargets haliases' hsame
    refine ⟨steps'.filterMap (Step.node? keep), table'',
      program_eq_ok_iff.2 ⟨entered'', steps', log', rest', hentered', hrun', heof', rfl⟩, ?_, ?_,
      hsame'⟩
    · rintro rfl
      rw [filterMap_node?_false, filterMap_node?_false, hexpressions]
    · rw [hrun'.filter_nodes hentered' (lexed_ofText text'),
        hrun.filter_nodes hentered (lexed_ofText text), hexpressions]

/-! ## Finding the ends of statements -/

/-- The next `n` statements, with the table and the lexemes behind them. -/
def nextSteps :
    Nat → ProcedureTable → List Lexeme → Option (List Step × ProcedureTable × List Lexeme)
  | 0, table, ls => some ([], table, ls)
  | n + 1, table, ls =>
    match statement ls.length table ls with
    | (.ok (s, mid), t) => (nextSteps n t mid).map fun (steps, next) =>
      (⟨ls, s, mid⟩ :: steps, next)
    | (.error _, _) => none

theorem run_of_nextSteps {n : Nat} (h : nextSteps n table ls = some (steps, table', rest)) :
    ∃ log, Run table ls steps log table' rest := by
  induction n generalizing table ls steps with
  | zero =>
    cases h
    exact ⟨[], .done⟩
  | succ n ih =>
    rw [nextSteps] at h
    split at h
    · next s mid t hs =>
      obtain ⟨⟨others, next⟩, hothers, heq⟩ := Option.map_eq_some_iff.1 h
      cases heq
      obtain ⟨_, hfirst⟩ := makesRuns_statement _ _ _ _ _ _ Nat.le.refl hs
      obtain ⟨_, hrun⟩ := ih hothers
      exact ⟨_, hfirst.append hrun⟩
    · cases h

theorem endsAt_of_run {text front : String} (hentered : Entered table (ofText text) entered)
    (hrun : Run entered (ofText text) steps log t rest)
    (hlength : (ofText front).length - 1 + rest.length = (ofText text).length) :
    EndsAt table text front steps := by
  obtain ⟨used, hused⟩ := hrun.suffix
  have hdrop : (ofText text).drop ((ofText front).length - 1) = rest := by
    rw [← hused, List.length_append] at hlength
    rw [Nat.add_right_cancel hlength, ← hused, List.drop_left]
  exact ⟨entered, log, t, hentered, hdrop.symm ▸ hrun⟩

/-- Whether three groups of lines hold `k`, `m` and `n` statements, and one of the last two is a
definition. -/
def swapsDefinition (table : ProcedureTable) (front first second back : String) (k m n : Nat) :
    Bool :=
  let ls := ofText (front ++ first ++ second ++ back)
  let endsBefore (text : String) (rest : List Lexeme) :=
    (ofText text).length - 1 + rest.length == ls.length
  [front, first, second].all (WholeLines ·.toList) &&
    (openings ls).all (fun start => (heading? start).isSome) &&
  ((table.defineAll (headings ls)).addAliases (directives ls)).any fun entered =>
  (nextSteps k entered ls).any fun (_, t₁, rest₁) =>
  (nextSteps m t₁ rest₁).any fun (steps₁, t₂, rest₂) =>
  (nextSteps n t₂ rest₂).any fun (steps₂, _, rest₃) =>
    endsBefore front rest₁ && endsBefore (front ++ first) rest₂ &&
      endsBefore (front ++ first ++ second) rest₃ &&
    (isDefinition steps₁ || isDefinition steps₂)

theorem definitionMoved_of_swapsDefinition {front first second back : String} {k m n : Nat}
    (h : swapsDefinition table front first second back k m n = true) :
    DefinitionMoved table (front ++ first ++ second ++ back)
      (front ++ second ++ first ++ back) := by
  rw [swapsDefinition, Bool.and_eq_true, Bool.and_eq_true, List.all_eq_true, List.all_eq_true] at h
  obtain ⟨⟨hlines, hheadings⟩, h⟩ := h
  simp only [List.forall_mem_cons, decide_eq_true_eq] at hlines
  obtain ⟨hfront, hfirst, hsecond, -⟩ := hlines
  obtain ⟨entered, haliases, h⟩ := (Option.any_eq_true _ _).1 h
  obtain ⟨⟨steps₀, t₁, rest₁⟩, hsteps₀, h⟩ := (Option.any_eq_true _ _).1 h
  obtain ⟨⟨steps₁, t₂, rest₂⟩, hsteps₁, h⟩ := (Option.any_eq_true _ _).1 h
  obtain ⟨⟨steps₂, t₃, rest₃⟩, hsteps₂, h⟩ := (Option.any_eq_true _ _).1 h
  simp only [Bool.and_eq_true, Bool.or_eq_true, beq_iff_eq] at h
  obtain ⟨⟨⟨hends₀, hends₁⟩, hends₂⟩, hdefinition⟩ := h
  have hentered : Entered table (ofText (front ++ first ++ second ++ back)) entered :=
    ⟨hheadings, haliases⟩
  obtain ⟨_, hrun₀⟩ := run_of_nextSteps hsteps₀
  obtain ⟨_, hrun₁⟩ := run_of_nextSteps hsteps₁
  obtain ⟨_, hrun₂⟩ := run_of_nextSteps hsteps₂
  have hrun₀₁ := hrun₀.append hrun₁
  exact .swap hfront hfirst hsecond (endsAt_of_run hentered hrun₀ hends₀)
    (endsAt_of_run hentered hrun₀₁ hends₁)
    (endsAt_of_run hentered (hrun₀₁.append hrun₂) hends₂) hdefinition

/-- Whether names are defined once, and not by aliases. -/
def definesOnce (ls : List Lexeme) : Bool :=
  decide ((headings ls).map (·.name)).Nodup &&
    (directives ls).all fun names => (headings ls).all fun heading =>
      heading.name != Text.toLower names.2

theorem of_definesOnce (h : definesOnce ls = true) :
    ((headings ls).map (·.name)).Nodup ∧
      ∀ names ∈ directives ls, ∀ heading ∈ headings ls, heading.name ≠ Text.toLower names.2 := by
  rw [definesOnce, Bool.and_eq_true, decide_eq_true_eq] at h
  refine ⟨h.1, fun names hnames heading hheading => ?_⟩
  have hall := List.all_eq_true.1 h.2 names hnames
  exact bne_iff_ne.1 (List.all_eq_true.1 hall heading hheading)

/-! ## A definition in front of its use, and one in front of an alias that it needs -/

/-- A program that uses a procedure in front of its definition. -/
def usedEarlyText : String :=
  "alias \"print \"say\nf 1\nto f :x\nsay :x\nend\nf 2\n"

def definedEarlyText : String :=
  "alias \"print \"say\nto f :x\nsay :x\nend\nf 1\nf 2\n"

theorem definition_moved_forward :
    ∃ nodes table' table'', readText false printTable usedEarlyText = (.ok nodes, table') ∧
      readText false printTable definedEarlyText = (.ok nodes, table'') ∧
      table'.SameUpToLines table'' := by
  have hok : (readText false printTable usedEarlyText).1.isOk = true := by
    rw [readText, Lexeme.ofText_eq]
    decide +kernel
  have honce : definesOnce (ofText usedEarlyText) = true := by
    rw [Lexeme.ofText_eq]
    decide +kernel
  have hswap : swapsDefinition printTable
    "alias \"print \"say\n" "f 1\n" "to f :x\nsay :x\nend\n" "f 2\n"
      4 2 2 = true := by
    simp only [swapsDefinition, Lexeme.ofText_eq]
    decide +kernel
  have hdirectives : directives (ofText definedEarlyText) = directives (ofText usedEarlyText) := by
    simp only [Lexeme.ofText_eq]
    decide +kernel
  have hmoved : DefinitionMoved printTable usedEarlyText definedEarlyText :=
    definitionMoved_of_swapsDefinition hswap
  obtain ⟨hnames, htargets⟩ := of_definesOnce honce
  obtain ⟨nodes, table', hread⟩ := exists_of_isOk hok
  obtain ⟨entered, _, _, _, ⟨-, haliases⟩, -⟩ := program_eq_ok_iff.1 hread
  have haliases' := haliases
  rw [← hdirectives] at haliases'
  obtain ⟨nodes', table'', hread', hnodes, -, hsame⟩ :=
    (definition_moved hread hnames htargets hmoved).2
      ⟨entered, entered, haliases, haliases', fun _ => rfl⟩
  cases hnodes rfl
  exact ⟨_, table', table'', hread, hread', hsame⟩

/-- A definition that makes an alias of an alias. -/
def aliasFirstText : String :=
  "alias \"print \"p\nto f\nalias \"p \"q\nend\n"

def aliasLastText : String :=
  "to f\nalias \"p \"q\nend\nalias \"print \"p\n"

/-- It is not so that every definition may be moved: an alias in it may come too early then. -/
theorem definition_moved_fails :
    ¬ ∀ (keep : Bool) (table table' : ProcedureTable) (text text' : String) (nodes : List Node),
      readText keep table text = (.ok nodes, table') →
      ((headings (ofText text)).map (·.name)).Nodup →
      (∀ names ∈ directives (ofText text), ∀ heading ∈ headings (ofText text),
        heading.name ≠ Text.toLower names.2) →
      DefinitionMoved table text text' →
      ∃ nodes' table'', readText keep table text' = (.ok nodes', table'') ∧
      (keep = false → nodes' = nodes) ∧
        table'.SameUpToLines table'' := by
  have hok : (readText false printTable aliasFirstText).1.isOk = true := by
    rw [readText, Lexeme.ofText_eq]
    decide +kernel
  have hfails : (readText false printTable aliasLastText).1.isOk = false := by
    rw [readText, Lexeme.ofText_eq]
    decide +kernel
  have honce : definesOnce (ofText aliasFirstText) = true := by
    rw [Lexeme.ofText_eq]
    decide +kernel
  have hswap : swapsDefinition printTable "" "alias \"print \"p\n" "to f\nalias \"p \"q\nend\n" ""
      0 4 2 = true := by
    simp only [swapsDefinition, Lexeme.ofText_eq]
    decide +kernel
  have hmoved : DefinitionMoved printTable aliasFirstText aliasLastText :=
    definitionMoved_of_swapsDefinition hswap
  obtain ⟨hnames, htargets⟩ := of_definesOnce honce
  obtain ⟨nodes, table', hread⟩ := exists_of_isOk hok
  intro hall
  obtain ⟨nodes', table'', hread', -⟩ :=
    hall false printTable table' aliasFirstText aliasLastText nodes hread hnames htargets hmoved
  rw [hread'] at hfails
  cases hfails

end Reader

end Logo
