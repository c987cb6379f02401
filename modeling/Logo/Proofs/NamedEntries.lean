import Logo.Proofs.LowerCase
import Logo.Proofs.TableWrites

/-!
# The entries that a program names

Reading a program writes only under keys that its tokens name: that of a symbol behind a word `to`,
or that of the new name in an alias directive.  `Keeps` says what single writes leave alone; it is a
preorder, so all of reading leaves it alone, whether it succeeds or fails.
-/

namespace Logo

/-- The key that tokens name: the name of a definition or the new name in an alias directive, in
lower case. -/
inductive Token.Names : List Token → String → Prop
  | definition {ts : List Token} {opening name : Token} (stands : [opening, name] <:+: ts)
      (opens : opening.kind = .toWord) (symbol : name.kind = .symbol) :
      Names ts (Text.toLower name.text)
  | newName {ts : List Token} {word original newName : Token}
      (stands : [word, original, newName] <:+: ts) (symbol : word.kind = .symbol)
      (directive : word.text.toList.map Char.toLower = "alias".toList)
      (original_quoted : original.kind = .quote) (quoted : newName.kind = .quote) :
      Names ts (Text.toLower newName.unmarked)

namespace ProcedureTable

/-- No key is lost, and under a key that is not named nothing changes. -/
structure Keeps (named : String → Prop) (table table' : ProcedureTable) : Prop where
  present : ∀ key, (table.entries.get? key).isSome → (table'.entries.get? key).isSome
  unchanged : ∀ key, ¬ named key → table'.entries.get? key = table.entries.get? key

namespace Keeps

variable {named : String → Prop} {table table₁ table' : ProcedureTable} {p : Procedure}

theorem refl (named : String → Prop) (table : ProcedureTable) : Keeps named table table :=
  ⟨fun _ h => h, fun _ _ => rfl⟩

theorem trans (h : Keeps named table table₁) (h' : Keeps named table₁ table') :
    Keeps named table table' :=
  ⟨fun key hkey => h'.present key (h.present key hkey),
    fun key hkey => (h'.unchanged key hkey).trans (h.unchanged key hkey)⟩

theorem define (table : ProcedureTable) (hp : named p.key) :
    Keeps named table (table.define p) := by
  refine ⟨fun key hkey => ?_, fun key hkey => ?_⟩
  · rw [get?_define]
    split
    · rfl
    · exact hkey
  · rw [get?_define, if_neg]
    rintro rfl
    exact hkey hp

theorem addAlias {name newName : String} (h : table.addAlias? name newName = some table')
    (hnamed : named (Text.toLower newName)) : Keeps named table table' := by
  obtain ⟨p, hp, -⟩ := Option.map_eq_some_iff.1 h
  refine ⟨fun key hkey => ?_, fun key hkey => ?_⟩
  · rw [get?_addAlias? h, hp]
    split
    · rfl
    · exact hkey
  · rw [get?_addAlias? h, if_neg]
    rintro rfl
    exact hkey hnamed

end Keeps

/-- What is written under some keys loses no key and keeps all the others. -/
theorem Writes.keeps {named : String → Prop} {table table' : ProcedureTable}
    (h : Writes named table table') : Keeps named table table' := by
  induction h with
  | refl table => exact .refl named table
  | trans _ _ ih₁ ih₂ => exact ih₁.trans ih₂
  | define table hnamed _ => exact .define table hnamed
  | addAlias h hnamed => exact .addAlias h hnamed

end ProcedureTable

namespace Reader

variable {ls : List Lexeme}

/-- The names of a directive stand in its three lexemes. -/
theorem exists_of_mem_directives {names : String × String} (h : names ∈ directives ls) :
    ∃ word original newName : Lexeme, [word, original, newName] <:+: ls ∧ word.kind = .symbol ∧
      word.token.text.toList.map Char.toLower = "alias".toList ∧ original.kind = .quote ∧
      newName.kind = .quote ∧ names = (original.token.unmarked, newName.token.unmarked) := by
  induction ls with
  | nil => cases h
  | cons l ls ih =>
    rw [directives] at h
    rcases List.mem_append.1 h with hhere | hlater
    · rw [Option.mem_toList, aliasDirective?.eq_def] at hhere
      split at hhere
      · next word original newName rest heq =>
        split at hhere
        · next hdirective =>
          cases hhere
          refine ⟨word, original, newName, ?_, hdirective.1, hdirective.2.1, hdirective.2.2.1,
            hdirective.2.2.2, rfl⟩
          rw [heq]
          exact (List.prefix_append [word, original, newName] rest).isInfix
        · cases hhere
      · cases hhere
    · obtain ⟨word, original, newName, hpart, hrest⟩ := ih hlater
      exact ⟨word, original, newName, hpart.trans (List.suffix_cons _ _).isInfix, hrest⟩

/-- Where a header heads a definition, two tokens name its key. -/
theorem names_of_heads {ts : List Token} {key : String} (h : Heads (Lexeme.ofTokens ts) key) :
    Token.Names ts key := by
  obtain ⟨heading, hheading, rfl⟩ := h
  obtain ⟨start, hstart, hheading⟩ := List.mem_filterMap.1 hheading
  obtain ⟨hsuffix, hto⟩ := mem_openings_iff.1 hstart
  cases start with
  | nil => cases hto
  | cons opening start =>
    rw [heading?, List.tail_cons] at hheading
    split at hheading
    · next h rest hheader =>
      obtain ⟨name, params, rfl, hname, -, -, rfl⟩ := header_eq_ok_iff.1 hheader
      cases hheading
      have hstands : [opening.token, name.token] <:+: ts := by
        have hpart : [opening, name] <:+: Lexeme.ofTokens ts :=
          (List.prefix_append [opening, name] (params ++ rest)).isInfix.trans hsuffix.isInfix
        have hmap := hpart.map Lexeme.token
        rwa [Lexeme.ofTokens, Lexeme.map_token_ofTokensAfter] at hmap
      -- The name is put in lower case when the header is made and when it is stored.
      have hkey : (Procedure.ofHeader name.token.text (params.map (·.token.unmarked))
          (ahead (opening :: name :: (params ++ rest))).position.line).key =
          Text.toLower name.token.text := Text.toLower_toLower _
      rw [hkey]
      exact .definition hstands hto hname
    · cases hheading

/-- Where a directive stands, three tokens name the key of the new name. -/
theorem names_of_mem_directives {ts : List Token} {names : String × String}
    (h : names ∈ directives (Lexeme.ofTokens ts)) : Token.Names ts (Text.toLower names.2) := by
  obtain ⟨word, original, newName, hpart, hword, hdirective, horiginal, hnewName, rfl⟩ :=
    exists_of_mem_directives h
  have hmap := hpart.map Lexeme.token
  rw [Lexeme.ofTokens, Lexeme.map_token_ofTokensAfter] at hmap
  exact .newName hmap hword hdirective horiginal hnewName

/-- Reading a program touches only what its tokens name.  Whether it succeeds or fails, every key of
the table is still there, and under a key that is neither the name of a definition nor the new name
in an alias directive there is what was there before, or nothing as before. -/
theorem only_named_entries_change (keep : Bool) (table : ProcedureTable) (ts : List Token)
    (key : String) :
    ((table.entries.get? key).isSome →
      ((program keep table (Lexeme.ofTokens ts)).2.entries.get? key).isSome) ∧
    (¬ Token.Names ts key →
      (program keep table (Lexeme.ofTokens ts)).2.entries.get? key = table.entries.get? key) := by
  have hkeeps := (program_writes keep table (Lexeme.ofTokens ts)).keeps
  refine ⟨hkeeps.present key, fun hunnamed => hkeeps.unchanged key ?_⟩
  rintro (hheads | ⟨names, hnames, rfl⟩)
  · exact hunnamed (names_of_heads hheads)
  · exact hunnamed (names_of_mem_directives hnames)

/-- An alias directive, and a definition with a stray parenthesis in its body. -/
def strayParenthesis : List Token :=
  [⟨.symbol, "alias", .start⟩, ⟨.quote, "\"print", .start⟩, ⟨.quote, "\"Say", .start⟩,
    ⟨.newline, "\n", .start⟩,
    ⟨.toWord, "to", .start⟩, ⟨.symbol, "F", .start⟩, ⟨.newline, "\n", .start⟩,
    ⟨.rightParen, ")", .start⟩, ⟨.eof, "", .start⟩]

/-- A table with two procedures. -/
def consoleTable : ProcedureTable :=
  (ProcedureTable.empty.define (.ofHost "print" ["output"] .native ⟨.print, 0⟩)).define
    (.ofHost "show" ["output"] .native ⟨.display, 0⟩)

/-- Reading fails in the body of the definition.  By then both names are entered, and `show` is as
it was. -/
theorem only_named_entries_change_stray :
    (∃ table', program true consoleTable (Lexeme.ofTokens strayParenthesis) =
      (.error (.unexpectedToken ⟨.rightParen, ")", .start⟩), table') ∧
        table'.keys = ["f", "print", "say", "show"]) ∧
    ¬ Token.Names strayParenthesis "show" ∧
    (program true consoleTable (Lexeme.ofTokens strayParenthesis)).2.entries.get? "show" =
      consoleTable.entries.get? "show" := by
  have hsymbols : ∀ t ∈ strayParenthesis, t.kind = .symbol → Text.toLower t.text ≠ "show" := by
    decide +kernel
  have hquotes : ∀ t ∈ strayParenthesis, t.kind = .quote → Text.toLower t.unmarked ≠ "show" := by
    decide +kernel
  have hunnamed : ¬ Token.Names strayParenthesis "show" := by
    generalize hkey : "show" = key
    intro h
    cases h with
    | definition stands opens symbol => exact hsymbols _ (stands.subset (by simp)) symbol hkey.symm
    | newName stands symbol directive original_quoted quoted =>
      exact hquotes _ (stands.subset (by simp)) quoted hkey.symm
  exact ⟨⟨_, rfl, by decide +kernel⟩, hunnamed,
    (only_named_entries_change true consoleTable strayParenthesis "show").2 hunnamed⟩

end Reader

end Logo
