import Logo.Proofs.Joining
import Logo.Proofs.Respelling
import Logo.Proofs.Shape

/-!
# Reading between spaces

In the text of a definition the lexemes of the definition stand between spaces, and the table that
it is read from is a later one.  Apart from kinds and texts, the reader looks at two things: at the
numbers of inputs that names have, and at signs.  Both can have changed.  A name may have been
defined once more, and between spaces no minus is a sign; the reader takes it for an operator then
if it stands behind an operand, and for the sign of a number all the same if it does not.

`readsAlike` goes through the lexemes with the tables of both readings and tells whether neither
matters.  The headers on the way are stored in both tables, from their first word on and again where
their definitions end, so a name is compared with what it means at its place; what stands in
brackets is not compared at all.  If it does not matter, the second reading is the same as the first
one (`Reads.map_respelled`, `Run.map_respelled`).
-/

namespace Logo

namespace Reader

open Lexeme

/-! ## Two readings of one definition -/

/-- Where a lexeme stands in an expression. -/
inductive Spot where
  /-- Where an operand starts. -/
  | start
  /-- Right behind an opening parenthesis. -/
  | opened
  /-- Behind an operand. -/
  | behind
deriving DecidableEq

/-- What stands behind a lexeme, or, where a bracket opens, behind the list. -/
def Spot.after (table : ProcedureTable) (spot : Spot) (l : Lexeme) : Spot :=
  match l.kind with
  | .trueWord | .falseWord | .nilWord | .number | .quote | .reference | .leftBracket
  | .rightParen => .behind
  | .leftParen => .opened
  | .symbol =>
    match table.arity? l.token.text with
    | none => .behind
    | some 0 => if spot = .opened then .start else .behind
    | some (_ + 1) => .start
  | _ => .start

/-- The state of two readings of the same lexemes: their tables, the headers of the definitions
around them, the innermost first, and where they stand in an expression. -/
structure Site where
  old : ProcedureTable
  new : ProcedureTable
  opened : List Procedure
  spot : Spot

namespace Site

/-- Both readings store the header of a definition. -/
def define (site : Site) (p : Procedure) (opened : List Procedure) : Site :=
  ⟨site.old.define p, site.new.define p, opened, .start⟩

/-- Whether the lexeme means the same in both readings, of which only the old one knows signs: a
name has as many inputs in the new table as in the old one, and a minus that is a sign does not
stand behind an operand. -/
def allows (site : Site) (l : Lexeme) : Bool :=
  !(l.isSign && site.spot == .behind) &&
    (l.kind != .symbol || site.old.arity? l.token.text == site.new.arity? l.token.text)

/-- The state behind a lexeme outside of brackets.  A header counts from its first word on, and once
more when its definition ends. -/
def after (site : Site) (l : Lexeme) (ls : List Lexeme) : Site :=
  match l.kind with
  | .toWord =>
    match heading? (l :: ls) with
    | some p => site.define p (p :: site.opened)
    | none => site
  | .endWord =>
    match site.opened with
    | p :: opened => site.define p opened
    | [] => site
  | _ => { site with spot := site.spot.after site.old l }

end Site

/-- Whether lexemes below some open brackets mean the same in both readings. -/
def readsAlike : Nat → Site → List Lexeme → Bool
  | _, _, [] => true
  | 0, site, l :: ls => site.allows l && readsAlike (Token.depthAfter 0 l.kind) (site.after l ls) ls
  | depth + 1, site, l :: ls => readsAlike (Token.depthAfter (depth + 1) l.kind) site ls

variable {table table' t t' old new : ProcedureTable} {opened : List Procedure} {phrase : Phrase}
  {spot : Spot} {site : Site} {l : Lexeme} {ls used rest : List Lexeme} {node : Node}
  {nodes : List Node} {steps log : List Step}

/-- Outside of brackets each lexeme has to be allowed where it stands. -/
theorem readsAlike_cons : readsAlike 0 site (l :: ls) = true ↔
    (l.isSign = true → site.spot ≠ .behind) ∧
      (l.kind = .symbol → site.old.arity? l.token.text = site.new.arity? l.token.text) ∧
      readsAlike (Token.depthAfter 0 l.kind) (site.after l ls) ls = true := by
  rw [readsAlike, Site.allows, Bool.and_eq_true, Bool.and_eq_true, and_assoc]
  refine and_congr ?_ (and_congr_left' ?_)
  · cases l.isSign <;> simp
  · rw [Bool.or_eq_true, bne_iff_ne, beq_iff_eq, Decidable.imp_iff_not_or]

/-- Behind a lexeme that belongs to an expression, but does not open a list. -/
theorem readsAlike_next {kind : TokenClass} (hl : l.kind = kind)
    (hkind : kind ≠ .toWord ∧ kind ≠ .endWord ∧ kind ≠ .leftBracket)
    (h : readsAlike 0 ⟨old, new, opened, spot⟩ (l :: ls) = true) :
    readsAlike 0 ⟨old, new, opened, spot.after old l⟩ ls = true := by
  subst hl
  have hrest := (readsAlike_cons.1 h).2.2
  have hdepth : Token.depthAfter 0 l.kind = 0 := by
    cases hbracket : l.kind with
    | leftBracket => exact absurd hbracket hkind.2.2
    | _ => rfl
  have hafter : Site.after ⟨old, new, opened, spot⟩ l ls =
      ⟨old, new, opened, spot.after old l⟩ := by
    rw [Site.after]
    split
    · next hto => exact absurd hto hkind.1
    · next hend => exact absurd hend hkind.2.1
    · rfl
  rwa [hdepth, hafter] at hrest

/-- Within a list nothing is asked for; behind its end the reading goes on where the list stood. -/
theorem readsAlike_of_listItems {outer : List (List Node)} {items : List Node}
    (h : listItems outer items ls = .ok (node, rest))
    (hreads : readsAlike (outer.length + 1) site ls = true) : readsAlike 0 site rest = true := by
  induction ls generalizing outer items with
  | nil => cases h
  | cons l ls ih =>
    rw [readsAlike] at hreads
    cases hkind : l.kind with
    | rightBracket =>
      rw [hkind] at hreads
      cases outer with
      | nil =>
        simp only [listItems, hkind] at h
        cases h
        exact hreads
      | cons around outer =>
        simp only [listItems, hkind] at h
        exact ih h hreads
    | eof =>
      simp only [listItems, hkind] at h
      cases h
    | _ =>
      simp only [listItems, hkind] at h
      rw [hkind] at hreads
      exact ih h hreads

theorem readsAlike_of_list (hbracket : l.kind = .leftBracket)
    (h : listItems [] [] ls = .ok (node, rest))
    (hreads : readsAlike 0 ⟨old, new, opened, spot⟩ (l :: ls) = true) :
    readsAlike 0 ⟨old, new, opened, .behind⟩ rest = true := by
  have hrest := (readsAlike_cons.1 hreads).2.2
  have hafter : Site.after ⟨old, new, opened, spot⟩ l ls = ⟨old, new, opened, .behind⟩ := by
    simp only [Site.after, Spot.after, hbracket]
  rw [hbracket, hafter] at hrest
  exact readsAlike_of_listItems h hrest

theorem readsAlike_of_literal? (h : literal? l = some node)
    (hreads : readsAlike 0 ⟨old, new, opened, spot⟩ (l :: ls) = true) :
    readsAlike 0 ⟨old, new, opened, .behind⟩ ls = true := by
  rw [literal?] at h
  cases hkind : l.kind with
  | trueWord | falseWord | nilWord | number | quote | reference =>
    have hrest := readsAlike_next hkind (by decide) hreads
    rwa [Spot.after, hkind] at hrest
  | _ => simp [hkind] at h

theorem readsAlike_of_isOperator (h : isOperator l.kind = true)
    (hreads : readsAlike 0 ⟨old, new, opened, spot⟩ (l :: ls) = true) :
    readsAlike 0 ⟨old, new, opened, .start⟩ ls = true := by
  cases hkind : l.kind with
  | equal | equalEqual | bangEqual | less | greater | lessEqual | greaterEqual | plus | minus | star
  | slash =>
    have hrest := readsAlike_next hkind (by decide) hreads
    rwa [Spot.after, hkind] at hrest
  | _ =>
    rw [hkind] at h
    cases h

/-- Whether the phrase may start at the spot. -/
def Phrase.StartsAt (table : ProcedureTable) (spot : Spot) (ls : List Lexeme) : Phrase → Prop
  -- Behind a parenthesis, a name that has inputs is that of a call with any number of them.
  | .operand _ => spot = .opened → callee? table ls = none
  | .chain .. => spot = .behind
  | .inputs count => spot ≠ .opened ∧ (count = 0 → spot = .behind)
  | .inputsToParen => spot ≠ .opened

/-! ## Expressions between spaces -/

@[simp] theorem kind_respelled (l : Lexeme) : l.respelled.kind = l.kind := rfl

@[simp] theorem isSign_respelled (l : Lexeme) : l.respelled.isSign = false := rfl

theorem token_respelled (h : l.kind ≠ .newline) : l.respelled.token = l.token := by
  rw [respelled_of_ne h]

theorem text_respelled (h : l.kind ≠ .newline) : l.respelled.token.text = l.token.text := by
  rw [token_respelled h]

theorem kind_ahead_respelled (ls : List Lexeme) :
    (ahead (ls.map respelled)).kind = (ahead ls).kind := by
  cases ls <;> rfl

/-- A list is read alike between spaces, as brackets and words have no signs. -/
theorem listItems_respelled {outer : List (List Node)} {items : List Node}
    (h : listItems outer items ls = .ok (node, rest)) :
    listItems outer items (ls.map respelled) = .ok (node, rest.map respelled) := by
  induction ls generalizing outer items with
  | nil => cases h
  | cons l ls ih =>
    rw [List.map_cons]
    cases hkind : l.kind with
    | rightBracket =>
      cases outer with
      | nil =>
        simp only [listItems, hkind] at h
        cases h
        simp only [listItems, kind_respelled, hkind]
      | cons around outer =>
        simp only [listItems, hkind] at h
        simp only [listItems, kind_respelled, hkind, ih h]
    | eof =>
      simp only [listItems, hkind] at h
      cases h
    | leftBracket | newline | blank | comment =>
      simp only [listItems, hkind] at h
      simp only [listItems, kind_respelled, hkind, ih h]
    | _ =>
      have htext : l.respelled.token.text = l.token.text := text_respelled (by rw [hkind]; decide)
      simp only [listItems, hkind] at h
      simp only [listItems, kind_respelled, hkind, htext, ih h]

theorem literal?_respelled (h : literal? l = some node) : literal? l.respelled = some node := by
  have hne : l.kind ≠ .newline := by
    intro hnewline
    simp [literal?, hnewline] at h
  rw [literal?, kind_respelled, token_respelled hne]
  exact h

theorem callee?_of_symbol (h : l.kind = .symbol) (table : ProcedureTable) (ls : List Lexeme) :
    callee? table (l :: ls) = table.arity? l.token.text :=
  if_pos h

/-- A name that means the same in both readings takes as many inputs between spaces. -/
theorem callee?_respelled (h : readsAlike 0 ⟨old, new, opened, spot⟩ ls = true) :
    callee? new (ls.map respelled) = callee? old ls := by
  cases ls with
  | nil => rfl
  | cons l ls =>
    rw [callee?, callee?, kind_ahead_respelled]
    split
    · next hsymbol =>
      have hkind : l.kind = .symbol := hsymbol
      have htext : l.respelled.token.text = l.token.text := text_respelled (by rw [hkind]; decide)
      exact (congrArg new.arity? htext).trans ((readsAlike_cons.1 h).2.1 hkind).symm
    · rfl

/-- What ends a chain behind an operand ends it between spaces, too. -/
theorem operator?_respelled {operators : Operators}
    (h : readsAlike 0 ⟨old, new, opened, .behind⟩ ls = true) :
    operator? operators (ls.map respelled) = operator? operators ls := by
  cases ls with
  | nil => rfl
  | cons l ls =>
    have hsign : l.isSign = false := by
      rw [← Bool.not_eq_true]
      exact fun hsign => (readsAlike_cons.1 h).1 hsign rfl
    rw [List.map_cons, operator?, operator?, isSign_respelled, kind_respelled, hsign]

/-- What a word opens depends on the number of its inputs. -/
theorem Spot.after_symbol (h : l.kind = .symbol) (table : ProcedureTable) (spot : Spot) :
    spot.after table l = match table.arity? l.token.text with
      | none => .behind
      | some 0 => if spot = .opened then .start else .behind
      | some (_ + 1) => .start := by
  rw [after, h]

/-- Phrases that mean the same in both readings are read alike between spaces. -/
theorem Reads.map_respelled (h : Reads old phrase ls nodes rest)
    (hlevels : phrase.levels ⊆ precedence)
    (hreads : readsAlike 0 ⟨old, new, opened, spot⟩ ls = true)
    (hspot : phrase.StartsAt old spot ls) :
    Reads new phrase (ls.map respelled) nodes (rest.map respelled) ∧
      ∃ spot', readsAlike 0 ⟨old, new, opened, spot'⟩ rest = true ∧
      (phrase.isOpen = false → spot' = .behind) := by
  induction h generalizing spot with
  | @literal l ls node word =>
    have hrest := readsAlike_of_literal? word hreads
    exact ⟨.literal (literal?_respelled word), .behind, hrest, fun _ => rfl⟩
  | @signed l m ls node minus digits value =>
    have hrest := readsAlike_next digits (by decide) (readsAlike_next minus (by decide) hreads)
    rw [Spot.after, digits] at hrest
    refine ⟨.signed minus digits ?_, .behind, hrest, fun _ => rfl⟩
    rw [token_respelled (by rw [digits]; decide)]
    exact value
  | @list l ls rest node bracket items =>
    have hrest := readsAlike_of_list bracket items hreads
    exact ⟨.list bracket (listItems_respelled items), .behind, hrest, fun _ => rfl⟩
  | @symbol l ls name undefined =>
    have hsame := (readsAlike_cons.1 hreads).2.1 name
    have hrest := readsAlike_next name (by decide) hreads
    have htext : l.respelled.token.text = l.token.text := text_respelled (by rw [name]; decide)
    rw [Spot.after_symbol name, undefined] at hrest
    refine ⟨?_, .behind, hrest, fun _ => rfl⟩
    rw [← htext]
    refine .symbol name ?_
    rw [htext, ← undefined]
    exact hsame.symm
  | @call l ls rest arity inputs name defined _ ih =>
    have hsame := (readsAlike_cons.1 hreads).2.1 name
    have hinputs := readsAlike_next name (by decide) hreads
    have htext : l.respelled.token.text = l.token.text := text_respelled (by rw [name]; decide)
    have hopened : spot ≠ .opened := by
      intro hopened
      have hnone := (callee?_of_symbol name old ls).symm.trans (hspot hopened)
      cases hnone.symm.trans defined
    have hstarts : (Phrase.inputs arity).StartsAt old (spot.after old l) ls := by
      rw [Spot.after_symbol name, defined]
      cases arity with
      | zero => exact ⟨by simp [hopened], fun _ => by simp [hopened]⟩
      | succ => exact ⟨nofun, nofun⟩
    obtain ⟨hread, hrest⟩ := ih (List.nil_subset _) hinputs hstarts
    refine ⟨?_, hrest⟩
    rw [← htext]
    refine .call name ?_ hread
    rw [htext, ← defined]
    exact hsame.symm
  | @parenCall l m r ls rest arity inputs left name defined inputs_read right ih =>
    have hm := readsAlike_next left (by decide) hreads
    rw [Spot.after, left] at hm
    have hsame := (readsAlike_cons.1 hm).2.1 name
    have hinputs := readsAlike_next name (by decide) hm
    have htext : m.respelled.token.text = m.token.text := text_respelled (by rw [name]; decide)
    have hafter : Spot.opened.after old m = .start := by
      rw [Spot.after_symbol name, defined]
      cases arity <;> rfl
    rw [hafter] at hinputs
    obtain ⟨hread, spot', hright, -⟩ := ih (List.nil_subset _) hinputs nofun
    have hrest := readsAlike_next right (by decide) hright
    rw [Spot.after, right] at hrest
    refine ⟨?_, .behind, hrest, fun _ => rfl⟩
    rw [← htext]
    refine .parenCall left name ?_ hread right
    rw [htext, ← defined]
    exact hsame.symm
  | @group l r ls rest node left no_callee inner right ih =>
    have hinner := readsAlike_next left (by decide) hreads
    rw [Spot.after, left] at hinner
    obtain ⟨hread, spot', hright, -⟩ := ih (List.Subset.refl _) hinner fun _ => no_callee
    have hrest := readsAlike_next right (by decide) hright
    rw [Spot.after, right] at hrest
    refine ⟨.group left ?_ hread right, .behind, hrest, fun _ => rfl⟩
    rw [callee?_respelled hinner, no_callee]
  | level first _ ihFirst ihOthers =>
    obtain ⟨hfirst, spot', hmid, hbehind⟩ :=
      ihFirst (List.subset_of_cons_subset hlevels) hreads hspot
    cases hbehind rfl
    obtain ⟨hothers, hrest⟩ := ihOthers hlevels hmid rfl
    exact ⟨.level hfirst hothers, hrest⟩
  | chainEnd no_operator =>
    obtain rfl : spot = .behind := hspot
    refine ⟨.chainEnd ?_, .behind, hreads, fun _ => rfl⟩
    rw [operator?_respelled hreads, no_operator]
  | @chainStep operators levels l ls mid rest left right node name operator next others
      ihNext ihOthers =>
    obtain rfl : spot = .behind := hspot
    have hnext :=
      readsAlike_of_isOperator (infix_of_operator? (hlevels List.mem_cons_self) operator).1 hreads
    obtain ⟨hnext, spot', hmid, hbehind⟩ := ihNext (List.subset_of_cons_subset hlevels) hnext nofun
    cases hbehind rfl
    obtain ⟨hothers, hrest⟩ := ihOthers hlevels hmid rfl
    refine ⟨.chainStep ?_ hnext hothers, hrest⟩
    exact (operator?_respelled hreads).trans operator
  | noInput =>
    obtain rfl : spot = .behind := hspot.2 rfl
    exact ⟨.noInput, .behind, hreads, fun _ => rfl⟩
  | input first _ ihFirst ihOthers =>
    obtain ⟨hfirst, spot', hmid, hbehind⟩ :=
      ihFirst (List.Subset.refl _) hreads fun h => absurd h hspot.1
    cases hbehind rfl
    obtain ⟨hothers, hrest⟩ := ihOthers (List.nil_subset _) hmid ⟨nofun, fun _ => rfl⟩
    exact ⟨.input hfirst hothers, hrest⟩
  | parenEnd right => exact ⟨.parenEnd right, spot, hreads, nofun⟩
  | @parenLine l ls rest nodes newline _ ih =>
    have hothers := readsAlike_next newline (by decide) hreads
    rw [Spot.after, newline] at hothers
    obtain ⟨hread, hrest⟩ := ih (List.nil_subset _) hothers nofun
    exact ⟨.parenLine newline hread, hrest⟩
  | parenInput first _ ihFirst ihOthers =>
    obtain ⟨hfirst, spot', hmid, hbehind⟩ :=
      ihFirst (List.Subset.refl _) hreads fun h => absurd h hspot
    cases hbehind rfl
    obtain ⟨hothers, hrest⟩ := ihOthers (List.nil_subset _) hmid nofun
    exact ⟨.parenInput hfirst hothers, hrest⟩

/-! ## Definitions between spaces -/

/-- A header is read alike between spaces. -/
theorem headerLine_respelled {h : Header} {line : Nat}
    (hread : headerLine ls = .ok ((h, line), rest)) :
    headerLine (ls.map respelled) = .ok ((h, line), rest.map respelled) := by
  obtain ⟨o, name, params, newline, rfl, ho, hname, hparams, hnewline, rfl, rfl⟩ :=
    headerLine_eq_ok_iff.1 hread
  refine headerLine_eq_ok_iff.2
    ⟨o.respelled, name.respelled, params.map respelled, newline.respelled, by simp, ho,
    hname, by simpa using hparams, hnewline, ?_, rfl⟩
  rw [text_respelled (by rw [hname]; decide), List.map_map]
  refine congrArg (Header.mk _) (List.map_congr_left fun l hl => ?_)
  rw [Function.comp_apply, token_respelled (by rw [hparams l hl]; decide)]

theorem definitionText_respelled (atLineStart : Bool) (ls : List Lexeme) :
    definitionText atLineStart (ls.map respelled) = definitionText atLineStart ls := by
  induction ls generalizing atLineStart with
  | nil => rfl
  | cons l ls ih =>
    rw [List.map_cons, definitionText, definitionText, kind_respelled]
    split
    · rw [ih]
    · next hne => rw [ih, text_respelled hne]

theorem complete_respelled (h : Header) (line : Nat) (nodes : List Node) (ls rest : List Lexeme) :
    complete h line nodes (ls.map respelled) (rest.map respelled) =
      complete h line nodes ls rest := by
  rw [complete, complete, List.length_map, List.length_map, ← List.map_take,
    definitionText_respelled]

theorem readsAlike_of_references {params : List Lexeme}
    (hparams : ∀ p ∈ params, p.kind = .reference)
    (h : readsAlike 0 ⟨old, new, opened, spot⟩ (params ++ ls) = true) :
    ∃ spot', readsAlike 0 ⟨old, new, opened, spot'⟩ ls = true := by
  induction params generalizing spot with
  | nil => exact ⟨spot, h⟩
  | cons p params ih =>
    rw [List.forall_mem_cons] at hparams
    exact ih hparams.2 (readsAlike_next hparams.1 (by decide) h)

/-- Both readings store a header. -/
theorem readsAlike_of_headerLine {h : Header} {line : Nat}
    (hread : headerLine ls = .ok ((h, line), rest))
    (hreads : readsAlike 0 ⟨old, new, opened, spot⟩ ls = true) :
    readsAlike 0 ⟨old.define (.ofHeader h.name h.params line),
      new.define (.ofHeader h.name h.params line),
      .ofHeader h.name h.params line :: opened, .start⟩ rest = true := by
  have hheading := heading?_of_headerLine hread
  obtain ⟨o, name, params, newline, rfl, ho, hname, hparams, hnewline, -⟩ :=
    headerLine_eq_ok_iff.1 hread
  have hinside := (readsAlike_cons.1 hreads).2.2
  rw [ho, Site.after, ho, hheading] at hinside
  obtain ⟨spot', hline⟩ :=
    readsAlike_of_references hparams (readsAlike_next hname (by decide) hinside)
  have hrest := readsAlike_next hnewline (by decide) hline
  rwa [Spot.after, hnewline] at hrest

/-- At the end of a definition both readings store its header once more. -/
theorem readsAlike_of_endWord {p : Procedure} (hend : l.kind = .endWord)
    (h : readsAlike 0 ⟨old, new, p :: opened, spot⟩ (l :: ls) = true) :
    readsAlike 0 ⟨old.define p, new.define p, opened, .start⟩ ls = true := by
  have hrest := (readsAlike_cons.1 h).2.2
  rwa [hend, Site.after, hend] at hrest

/-- Statements that mean the same in both readings are read alike between spaces. -/
theorem Run.map_respelled (h : Run table ls steps log table' rest) (hold : table.SameArities old)
    (hnew : t.SameArities new) (hreads : readsAlike 0 ⟨old, new, opened, spot⟩ ls = true)
    (hspot : spot ≠ .opened) :
    ∃ steps' log' t' old' new' spot', Run t (ls.map respelled) steps' log' t' (rest.map respelled) ∧
      steps'.map Step.statement = steps.map Step.statement ∧ table'.SameArities old' ∧
      t'.SameArities new' ∧
      readsAlike 0 ⟨old', new', opened, spot'⟩ rest = true ∧ spot' ≠ .opened := by
  induction h generalizing t old new opened spot with
  | done => exact ⟨[], [], t, old, new, spot, .done, rfl, hold, hnew, hreads, hspot⟩
  | @blank table table' l ls rest steps log newline _ ih =>
    have hothers := readsAlike_next newline (by decide) hreads
    rw [Spot.after, newline] at hothers
    obtain ⟨steps', log', t', old', new', spot', hrun, hsteps, hends⟩ := ih hold hnew hothers nofun
    exact ⟨_, _, t', old', new', spot', .blank newline hrun, congrArg (_ :: ·) hsteps, hends⟩
  | @expression table table' ls mid rest node steps log first _ ih =>
    obtain ⟨hread, spot', hmid, hbehind⟩ := (first.congr (List.Subset.refl _) hold).map_respelled
      (List.Subset.refl _) hreads fun h => absurd h hspot
    cases hbehind rfl
    obtain ⟨steps', log', t', old', new', spot', hrun, hsteps, hends⟩ := ih hold hnew hmid nofun
    exact ⟨_, _, t', old', new', spot',
      .expression (hread.congr (List.Subset.refl _) hnew.symm) hrun,
      congrArg (_ :: ·) hsteps, hends⟩
  | @definition table table₁ table' e ls inner mid rest h line p bodySteps bodyLog steps log opening
      _ closing complete_eq _ ihBody ih =>
    obtain ⟨bodySteps', bodyLog', t₁, old₁, new₁, spot₁, hbody, hbodySteps, hold₁, hnew₁,
        hreads₁, -⟩ :=
      ihBody (hold.define rfl rfl) (hnew.define rfl rfl)
        (readsAlike_of_headerLine opening hreads) nofun
    have hkey : p.key = (Procedure.ofHeader h.name h.params line).key := by rw [complete_eq]; rfl
    have harity : p.arity = (Procedure.ofHeader h.name h.params line).arity := by
      rw [complete_eq]; rfl
    obtain ⟨steps', log', t', old', new', spot', hrun, hsteps, hends⟩ :=
      ih (hold₁.define hkey harity) (hnew₁.define hkey harity)
        (readsAlike_of_endWord closing hreads₁) nofun
    refine ⟨_, _, t', old', new', spot',
      .definition (headerLine_respelled opening) hbody closing ?_ hrun,
      congrArg (_ :: ·) hsteps, hends⟩
    rw [complete_respelled,
      filterMap_of_statement (fun _ _ => Step.expression?_of_statement) hbodySteps, complete_eq]

end Reader

end Logo
