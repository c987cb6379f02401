import Logo.Proofs.ProcedureTable
import Logo.Reader.Program

/-!
# The passes over headers and aliases

Both passes go through the lexemes from one end to the other, and what they do can be said from the
list of what they find.  The first one stores the header of every word `to`
(`enterHeaders_eq_ok_iff`), whatever stands in between; the second one makes the aliases in the
order in which they are written (`enterAliases_eq_ok_iff`).

An alias takes what its original has at that moment.  So a name is found after the pass where it was
found before it, unless it is the new name of an alias (`get?_addAliases_of_forall_ne`).
-/

namespace Logo

namespace ProcedureTable

variable {table table' : ProcedureTable} {aliases : List (String × String)}
  {key name newName : String}

/-- Makes aliases one after the other. -/
def addAliases (table : ProcedureTable) (aliases : List (String × String)) :
    Option ProcedureTable :=
  aliases.foldlM (fun t names => t.addAlias? names.1 names.2) table

theorem addAliases_cons {names : String × String} :
    table.addAliases (names :: aliases) =
      (table.addAlias? names.1 names.2).bind (·.addAliases aliases) := rfl

/-- An alias is stored under its own name, with the procedure of its original. -/
theorem get?_addAlias? (h : table.addAlias? name newName = some table') :
    table'.entries.get? key =
      if key = Text.toLower newName then table.lookup? name else table.entries.get? key := by
  obtain ⟨p, hp, rfl⟩ := Option.map_eq_some_iff.1 h
  rw [hp]
  exact Dict.get?_insert

/-- Under a name that is not made an alias nothing changes. -/
theorem get?_addAliases_of_forall_ne (h : table.addAliases aliases = some table')
    (hkey : ∀ names ∈ aliases, key ≠ Text.toLower names.2) :
    table'.entries.get? key = table.entries.get? key := by
  induction aliases generalizing table with
  | nil =>
    cases h
    rfl
  | cons names aliases ih =>
    rw [List.forall_mem_cons] at hkey
    obtain ⟨table₁, hfirst, hothers⟩ := Option.bind_eq_some_iff.1 h
    rw [ih hothers hkey.2, get?_addAlias? hfirst, if_neg hkey.1]

/-- No name is lost. -/
theorem isSome_get?_addAliases (h : table.addAliases aliases = some table')
    (hkey : (table.entries.get? key).isSome) : (table'.entries.get? key).isSome := by
  induction aliases generalizing table with
  | nil =>
    cases h
    exact hkey
  | cons names aliases ih =>
    obtain ⟨table₁, hfirst, hothers⟩ := Option.bind_eq_some_iff.1 h
    refine ih hothers ?_
    rw [get?_addAlias? hfirst]
    split
    · obtain ⟨p, hp, -⟩ := Option.map_eq_some_iff.1 hfirst
      rw [hp]
      rfl
    · exact hkey

/-- The originals of aliases are known. -/
theorem isSome_lookup?_of_addAliases {names : String × String}
    (h : table.addAliases aliases = some table') (hnames : names ∈ aliases) :
    (table'.lookup? names.1).isSome := by
  induction aliases generalizing table with
  | nil => cases hnames
  | cons first aliases ih =>
    obtain ⟨table₁, hfirst, hothers⟩ := Option.bind_eq_some_iff.1 h
    rcases List.mem_cons.1 hnames with rfl | hnames
    · refine isSome_get?_addAliases hothers ?_
      obtain ⟨p, hp, -⟩ := Option.map_eq_some_iff.1 hfirst
      rw [get?_addAlias? hfirst, hp]
      split
      · rfl
      · exact Option.isSome_iff_exists.2 ⟨p, hp⟩
    · exact ih hothers hnames

theorem exists_addAliases (h : ∀ names ∈ aliases, (table.lookup? names.1).isSome) :
    ∃ table', table.addAliases aliases = some table' := by
  induction aliases generalizing table with
  | nil => exact ⟨table, rfl⟩
  | cons names aliases ih =>
    rw [List.forall_mem_cons] at h
    obtain ⟨p, hp⟩ := Option.isSome_iff_exists.1 h.1
    obtain ⟨table₁, hfirst⟩ : ∃ table₁, table.addAlias? names.1 names.2 = some table₁ :=
      ⟨_, Option.map_eq_some_iff.2 ⟨p, hp, rfl⟩⟩
    have hothers : ∀ names ∈ aliases, (table₁.lookup? names.1).isSome := by
      intro other hother
      rw [lookup?, get?_addAlias? hfirst]
      split
      · exact h.1
      · exact h.2 other hother
    obtain ⟨table', htable'⟩ := ih hothers
    exact ⟨table', by rw [addAliases_cons, hfirst, Option.bind_some, htable']⟩

end ProcedureTable

namespace Reader

variable {table table' : ProcedureTable} {ls ms : List Lexeme} {l : Lexeme}

/-! ## Headers -/

/-- What stands from each word that opens a definition on. -/
def openings : List Lexeme → List (List Lexeme)
  | [] => []
  | l :: ls => if l.kind = .toWord then (l :: ls) :: openings ls else openings ls

theorem openings_cons_of_ne (h : l.kind ≠ .toWord) : openings (l :: ls) = openings ls :=
  if_neg h

theorem openings_append_of_forall_ne (h : ∀ m ∈ ms, m.kind ≠ .toWord) :
    openings (ms ++ ls) = openings ls := by
  induction ms with
  | nil => rfl
  | cons m ms ih =>
    rw [List.forall_mem_cons] at h
    rw [List.cons_append, openings_cons_of_ne h.1, ih h.2]

/-- The openings are the ends of the text that start with the word for a definition. -/
theorem mem_openings_iff {start : List Lexeme} :
    start ∈ openings ls ↔ start <:+ ls ∧ (ahead start).kind = .toWord := by
  induction ls with
  | nil =>
    refine ⟨nofun, fun ⟨hsuffix, hto⟩ => ?_⟩
    rw [List.suffix_nil.1 hsuffix] at hto
    cases hto
  | cons l ls ih =>
    rw [List.suffix_cons_iff, or_and_right, ← ih, openings]
    split
    · next hto =>
      rw [List.mem_cons]
      refine or_congr_left ⟨?_, And.left⟩
      rintro rfl
      exact ⟨rfl, hto⟩
    · next hto =>
      refine ⟨.inr, fun h => h.resolve_left ?_⟩
      rintro ⟨rfl, h⟩
      exact hto h

/-- The procedure with the header of a definition and no body. -/
def heading? (start : List Lexeme) : Option Procedure :=
  match header start.tail with
  | .ok (h, _) => some (.ofHeader h.name h.params (ahead start).position.line)
  | .error _ => none

/-- The headers of all definitions, in the order of the text. -/
def headings (ls : List Lexeme) : List Procedure :=
  (openings ls).filterMap heading?

/-- The first pass succeeds if every definition has a header, and stores these in the order of the
text. -/
theorem enterHeaders_eq_ok_iff : enterHeaders table ls = (.ok (), table') ↔
    (∀ start ∈ openings ls, (heading? start).isSome) ∧ table' = table.defineAll (headings ls) := by
  induction ls generalizing table with
  | nil =>
    simp only [enterHeaders, Prod.mk.injEq, true_and, openings]
    exact ⟨fun h => ⟨nofun, h.symm⟩, fun h => h.2.symm⟩
  | cons l ls ih =>
    rw [enterHeaders, headings, openings]
    split
    · rw [List.forall_mem_cons, List.filterMap_cons]
      cases hheader : header ls with
      | ok r =>
        obtain ⟨h, rest⟩ := r
        have hheading : heading? (l :: ls) =
            some (.ofHeader h.name h.params l.token.position.line) := by
          rw [heading?, List.tail_cons, hheader]
          rfl
        rw [hheading]
        exact ih.trans (and_congr_left' (by simp))
      | error e =>
        have hheading : heading? (l :: ls) = none := by
          rw [heading?, List.tail_cons, hheader]
        rw [hheading]
        refine ⟨fun hok => ?_, fun hok => ?_⟩
        · cases congrArg Prod.fst hok
        · cases hok.1.1
    · exact ih

/-! ## Aliases -/

/-- The names in all alias directives, in the order of the text. -/
def directives : List Lexeme → List (String × String)
  | [] => []
  | l :: ls => (aliasDirective? (l :: ls)).toList ++ directives ls

/-- The alias pass succeeds if every directive has an original by then, and makes the aliases in
order. -/
theorem enterAliases_eq_ok_iff :
    enterAliases table ls = (.ok (), table') ↔ table.addAliases (directives ls) = some table' := by
  induction ls generalizing table with
  | nil =>
    simp only [enterAliases, Prod.mk.injEq, true_and]
    exact Option.some_inj.symm
  | cons l ls ih =>
    rw [enterAliases, directives]
    cases aliasDirective? (l :: ls) with
    | none => exact ih
    | some names =>
      obtain ⟨name, newName⟩ := names
      rw [Option.toList_some, List.singleton_append, ProcedureTable.addAliases_cons]
      cases hadd : table.addAlias? name newName with
      | none =>
        simp only [hadd, Option.bind_none]
        refine ⟨fun h => ?_, nofun⟩
        cases congrArg Prod.fst h
      | some table =>
        simp only [hadd, Option.bind_some]
        exact ih

/-- The headers and the aliases are entered without an error. -/
def Entered (table : ProcedureTable) (ls : List Lexeme) (entered : ProcedureTable) : Prop :=
  (∀ start ∈ openings ls, (heading? start).isSome) ∧
    (table.defineAll (headings ls)).addAliases (directives ls) = some entered

/-- `Entered` says what the two passes do when they succeed. -/
theorem entered_iff {entered : ProcedureTable} : Entered table ls entered ↔
    ∃ opened, enterHeaders table ls = (.ok (), opened) ∧
    enterAliases opened ls = (.ok (), entered) := by
  simp only [enterHeaders_eq_ok_iff, enterAliases_eq_ok_iff]
  constructor
  · rintro ⟨hheadings, haliases⟩
    exact ⟨_, ⟨hheadings, rfl⟩, haliases⟩
  · rintro ⟨_, ⟨hheadings, rfl⟩, haliases⟩
    exact ⟨hheadings, haliases⟩

theorem Entered.unique {entered entered' : ProcedureTable} (h : Entered table ls entered)
    (h' : Entered table ls entered') : entered = entered' :=
  Option.some.inj (h.2.symm.trans h'.2)

end Reader

end Logo
