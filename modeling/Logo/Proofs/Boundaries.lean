import Logo.Proofs.Places

/-!
# Boundaries between statements

A program is read in one way only: of two runs from the same place the one that goes further goes on
where the other one ends (`Run.exists_others`).  No expression and no definition ends with a
newline, so a run that goes up to the end of a line has read the newline by itself
(`Run.exists_line`).  Therefore statements that fill whole lines are read alike wherever these lines
stand (`Run.transport_lines`), and so are the alias directives on them (`directives_append_lines`).
-/

namespace Logo.Reader

open Lexeme

variable {table table' t t₁ t₂ : ProcedureTable} {phrase : Phrase} {l l' newline : Lexeme}
  {ls ls' used used' mid rest rest' : List Lexeme} {node node' : Node} {nodes : List Node}
  {steps steps₁ steps₂ log log₁ log₂ : List Step}

/-! ## Uniqueness -/

theorem Reads.unique (h : Reads table (.operand precedence) ls [node] rest)
    (h' : Reads table (.operand precedence) ls [node'] rest') : node = node' ∧ rest = rest' := by
  have heq := (h.expression_eq (Nat.le_refl _)).symm.trans (h'.expression_eq (Nat.le_refl _))
  exact Prod.mk.inj (Except.ok.inj heq)

theorem Run.length_le (h : Run table ls steps log table' rest) : rest.length ≤ ls.length :=
  h.suffix.length_le

/-- A run that does not move has no steps. -/
theorem Run.eq_nil (h : Run table ls steps log table' rest) (hlength : ls.length ≤ rest.length) :
    steps = [] ∧ log = [] ∧ table' = table ∧ rest = ls := by
  cases h with
  | done => exact ⟨rfl, rfl, rfl, rfl⟩
  | blank _ others =>
    have := others.length_le
    rw [List.length_cons] at hlength
    omega
  | expression first others =>
    have := others.length_le
    have := first.length_lt
    omega
  | definition opening body _ _ others =>
    have := others.length_le
    have := body.length_le
    have := (suffix_of_headerLine opening).2
    rw [List.length_cons] at *
    omega

/-- What a statement starts with tells its kind. -/
theorem Reads.opensOperand (h : Reads table (.operand precedence) ls [node] rest) :
    Reader.opensOperand (ahead ls).kind = true := by
  obtain ⟨l, more, rfl, hopens⟩ := h.exists_opening rfl
  exact hopens

theorem kind_of_headerLine {h : Header} {line : Nat}
    (hread : headerLine ls = .ok ((h, line), rest)) : (ahead ls).kind = .toWord := by
  obtain ⟨o, name, params, newline, rfl, hto, -⟩ := headerLine_eq_ok_iff.1 hread
  exact hto

/-- A run goes on only where a statement starts. -/
theorem Run.eq_nil_of_kind (h : Run table ls steps log table' rest)
    (hkind : opensStatement (ahead ls).kind = false) :
    steps = [] ∧ log = [] ∧ table' = table ∧ rest = ls := by
  cases h with
  | done => exact ⟨rfl, rfl, rfl, rfl⟩
  | @blank _ _ l ls _ _ _ newline =>
    rw [show (ahead (l :: ls)).kind = .newline from newline] at hkind
    cases hkind
  | expression first =>
    rw [opensStatement, first.opensOperand] at hkind
    cases hkind
  | definition opening =>
    rw [kind_of_headerLine opening] at hkind
    cases hkind

/-- Of two runs the one that goes further goes on where the other one ends. -/
theorem Run.exists_others (h₁ : Run table ls steps₁ log₁ t₁ mid)
    (h₂ : Run table ls steps₂ log₂ t₂ rest)
    (hfar : opensStatement (ahead rest).kind = true → rest.length ≤ mid.length) :
    ∃ steps log, steps₂ = steps₁ ++ steps ∧ log₂ = log₁ ++ log ∧ Run t₁ mid steps log t₂ rest := by
  induction h₁ generalizing steps₂ log₂ t₂ rest with
  | done => exact ⟨steps₂, log₂, rfl, rfl, h₂⟩
  | @blank table t₁ l ls mid steps₁ log₁ newline others ih =>
    have hkind : (ahead (l :: ls)).kind = .newline := newline
    cases h₂ with
    | done =>
      have hle := hfar (by rw [hkind]; rfl)
      have := others.length_le
      rw [List.length_cons] at hle
      omega
    | blank _ others' =>
      obtain ⟨steps, log, rfl, rfl, hrun⟩ := ih others' hfar
      exact ⟨steps, log, rfl, rfl, hrun⟩
    | expression first =>
      have hopens := first.opensOperand
      rw [hkind] at hopens
      cases hopens
    | definition opening =>
      have hto := kind_of_headerLine opening
      rw [hkind] at hto
      cases hto
  | @expression table t₁ ls mid' mid node steps₁ log₁ first others ih =>
    have hopens := first.opensOperand
    cases h₂ with
    | done =>
      have hle := hfar (by rw [opensStatement, hopens]; rfl)
      have := others.length_le
      have := first.length_lt
      omega
    | @blank _ _ l ls _ _ _ newline =>
      have hkind : (ahead (l :: ls)).kind = .newline := newline
      rw [hkind] at hopens
      cases hopens
    | expression first' others' =>
      obtain ⟨rfl, rfl⟩ := first.unique first'
      obtain ⟨steps, log, rfl, rfl, hrun⟩ := ih others' hfar
      exact ⟨steps, log, rfl, rfl, hrun⟩
    | definition opening =>
      rw [kind_of_headerLine opening] at hopens
      cases hopens
  | @definition table tb t₁ e ls inner mid' mid h line p bodySteps bodyLog steps₁ log₁ opening body
      closing complete_eq others ihBody ih =>
    have hto := kind_of_headerLine opening
    cases h₂ with
    | done =>
      have hle := hfar (by rw [hto]; rfl)
      have := others.length_le
      have := body.length_le
      have := (suffix_of_headerLine opening).2
      rw [List.length_cons] at *
      omega
    | @blank _ _ l ls _ _ _ newline =>
      have hkind : (ahead (l :: ls)).kind = .newline := newline
      rw [hkind] at hto
      cases hto
    | expression first =>
      have hopens := first.opensOperand
      rw [hto] at hopens
      cases hopens
    | @definition _ tb' _ e' _ inner' mid'' _ h' line' p' bodySteps' bodyLog' steps' log' opening'
        body' closing' complete_eq' others' =>
      cases opening.symm.trans opening'
      -- The body of the second run cannot go on behind the word that ends that of the first one.
      obtain ⟨more, moreLog, rfl, rfl, hmore⟩ := ihBody body' fun hopens => by
        rw [show (ahead (e' :: mid'')).kind = .endWord from closing'] at hopens
        cases hopens
      have hend : opensStatement (ahead (e :: mid')).kind = false := by
        rw [show (ahead (e :: mid')).kind = .endWord from closing]
        rfl
      obtain ⟨rfl, rfl, rfl, heq⟩ := hmore.eq_nil_of_kind hend
      cases heq
      rw [List.append_nil] at complete_eq'
      subst complete_eq complete_eq'
      obtain ⟨steps, log, rfl, rfl, hrun⟩ := ih others' hfar
      exact ⟨steps, log, rfl, by simp, hrun⟩

/-! ## Newlines -/

/-- The phrases that may be followed by a newline of their own. -/
def Phrase.isOpen : Phrase → Bool
  | .inputsToParen => true
  | _ => false

/-- The last lexeme, if there is one, is no newline. -/
def EndsWithin (ls : List Lexeme) : Prop :=
  ∀ l ∈ ls.getLast?, l.kind ≠ .newline

theorem EndsWithin.nil : EndsWithin [] := nofun

theorem EndsWithin.append (h : EndsWithin ls) (h' : EndsWithin ls') : EndsWithin (ls ++ ls') := by
  intro l hl
  rw [List.getLast?_append, Option.mem_def, Option.or_eq_some_iff] at hl
  rcases hl with hl | ⟨-, hl⟩
  · exact h' l hl
  · exact h l hl

theorem EndsWithin.concat (ls : List Lexeme) {kind : TokenClass} (h : l.kind = kind)
    (hkind : kind ≠ .newline) : EndsWithin (ls ++ [l]) := by
  intro m hm
  rw [List.getLast?_concat] at hm
  cases hm
  rwa [h]

theorem EndsWithin.singleton {kind : TokenClass} (h : l.kind = kind) (hkind : kind ≠ .newline) :
    EndsWithin [l] :=
  .concat [] h hkind

/-- A list ends with a bracket. -/
theorem exists_bracket_of_listItems {outer : List (List Node)} {items : List Node}
    (h : listItems outer items ls = .ok (node, rest)) :
    ∃ used r, ls = used ++ r :: rest ∧ r.kind = .rightBracket := by
  induction ls generalizing outer items with
  | nil => cases h
  | cons l ls ih =>
    have hgoOn : ∀ {outer' items'}, listItems outer' items' ls = .ok (node, rest) →
        ∃ used r, l :: ls = used ++ r :: rest ∧ r.kind = .rightBracket := by
      intro outer' items' h
      obtain ⟨used, r, rfl, hr⟩ := ih h
      exact ⟨l :: used, r, rfl, hr⟩
    simp only [listItems] at h
    cases hkind : l.kind with
    | rightBracket =>
      rw [hkind] at h
      cases outer with
      | nil =>
        cases h
        exact ⟨[], l, rfl, hkind⟩
      | cons around outer => exact hgoOn h
    | eof =>
      rw [hkind] at h
      cases h
    | _ =>
      rw [hkind] at h
      exact hgoOn h

theorem endsWithin_literal (h : literal? l = some node) : EndsWithin [l] := by
  rw [literal?] at h
  cases hkind : l.kind with
  | newline => simp [hkind] at h
  | _ => exact .singleton hkind (by decide)

/-- No expression ends with a newline. -/
theorem Reads.exists_endsWithin (h : Reads table phrase ls nodes rest)
    (hlevels : phrase.levels ⊆ precedence) (hphrase : phrase.isOpen = false) :
    ∃ used, ls = used ++ rest ∧ EndsWithin used := by
  induction h with
  | literal word => exact ⟨[_], rfl, endsWithin_literal word⟩
  | @signed l _ _ _ _ digits => exact ⟨[l, _], rfl, .concat [l] digits (by decide)⟩
  | @list l _ _ _ _ items =>
    obtain ⟨used, r, rfl, hr⟩ := exists_bracket_of_listItems items
    exact ⟨l :: used ++ [r], by simp, .concat _ hr (by decide)⟩
  | symbol name => exact ⟨[_], rfl, .singleton name (by decide)⟩
  | call name _ _ ih =>
    obtain ⟨used, rfl, hused⟩ := ih (List.nil_subset _) rfl
    exact ⟨_ :: used, rfl, (EndsWithin.singleton name (by decide)).append hused⟩
  | @parenCall l m r _ _ _ _ _ _ _ inputs_read right =>
    obtain ⟨used, rfl, -⟩ := inputs_read.exists_used
    exact ⟨l :: m :: used ++ [r], by simp, .concat _ right (by decide)⟩
  | @group l r _ _ _ _ _ inner right =>
    obtain ⟨used, rfl, -⟩ := inner.exists_used
    exact ⟨l :: used ++ [r], by simp, .concat _ right (by decide)⟩
  | level _ _ ihFirst ihOthers =>
    obtain ⟨used, rfl, hused⟩ := ihFirst (List.subset_of_cons_subset hlevels) rfl
    obtain ⟨more, rfl, hmore⟩ := ihOthers hlevels rfl
    exact ⟨used ++ more, (List.append_assoc _ _ _).symm, hused.append hmore⟩
  | chainEnd => exact ⟨[], rfl, .nil⟩
  | @chainStep _ _ l _ _ _ _ _ _ _ operator _ _ ihNext ihOthers =>
    obtain ⟨used, rfl, hused⟩ := ihNext (List.subset_of_cons_subset hlevels) rfl
    obtain ⟨more, rfl, hmore⟩ := ihOthers hlevels rfl
    have hl : EndsWithin [l] := by
      have hoperator := (infix_of_operator? (hlevels List.mem_cons_self) operator).1
      refine .singleton rfl fun hkind => ?_
      rw [hkind] at hoperator
      cases hoperator
    exact ⟨[l] ++ (used ++ more), by simp, hl.append (hused.append hmore)⟩
  | noInput => exact ⟨[], rfl, .nil⟩
  | input _ _ ihFirst ihOthers =>
    obtain ⟨used, rfl, hused⟩ := ihFirst (List.Subset.refl _) rfl
    obtain ⟨more, rfl, hmore⟩ := ihOthers (List.nil_subset _) rfl
    exact ⟨used ++ more, (List.append_assoc _ _ _).symm, hused.append hmore⟩
  | parenEnd | parenLine | parenInput => cases hphrase

/-- What is read before a newline ends before it. -/
theorem exists_newline_of_endsWithin (hl : l.kind = .newline)
    (hused : used ++ mid = ls' ++ l :: rest) (hends : EndsWithin used) (hmid : rest <:+ mid) :
    ∃ more, mid = more ++ l :: rest := by
  obtain ⟨more, rfl⟩ := hmid
  rcases List.eq_nil_or_concat more with rfl | ⟨more, last, rfl⟩
  · have hsplit : used = ls' ++ [l] := List.append_cancel_right (by simpa using hused)
    refine absurd hl (hends l ?_)
    rw [hsplit]
    simp
  · have hsplit : (used ++ more) ++ [last] = ls' ++ [l] :=
      List.append_cancel_right (by simpa using hused)
    obtain ⟨-, hlast⟩ := List.append_inj' hsplit rfl
    cases hlast
    exact ⟨more, by simp⟩

/-- A run up to the end of a line reads the newline by itself. -/
theorem Run.exists_line (h : Run table ls steps log table' rest)
    (hnewline : newline.kind = .newline) (hls : ls = used ++ newline :: rest) :
    ∃ steps' log', steps = steps' ++ [⟨newline :: rest, .blank, rest⟩] ∧
      log = log' ++ [⟨newline :: rest, .blank, rest⟩] ∧
      Run table ls steps' log' table' (newline :: rest) := by
  induction h generalizing used with
  | done =>
    have := congrArg List.length hls
    simp at this
    omega
  | @blank table table' l ls rest steps log kind others ih =>
    cases used with
    | nil =>
      cases hls
      obtain ⟨rfl, rfl, rfl, -⟩ := others.eq_nil (Nat.le_refl _)
      exact ⟨[], [], rfl, rfl, .done⟩
    | cons m used =>
      cases hls
      obtain ⟨steps', log', rfl, rfl, hrun⟩ := ih rfl
      exact ⟨_ :: steps', _ :: log', rfl, rfl, .blank kind hrun⟩
  | expression first others ih =>
    obtain ⟨front, rfl, hfront⟩ := first.exists_endsWithin (List.Subset.refl _) rfl
    obtain ⟨more, hmore⟩ := exists_newline_of_endsWithin hnewline hls hfront others.suffix
    obtain ⟨steps', log', rfl, rfl, hrun⟩ := ih hmore
    exact ⟨_ :: steps', _ :: log', rfl, rfl, .expression first hrun⟩
  | @definition table tb table' e ls inner mid rest h line p bodySteps bodyLog steps log opening
      body closing complete_eq others _ ih =>
    obtain ⟨front, hfront⟩ := body.suffix.trans (suffix_of_headerLine opening).1
    have hsplit : (front ++ [e]) ++ mid = used ++ newline :: rest := by
      rw [← hls, ← hfront, List.append_assoc, List.singleton_append]
    obtain ⟨more, hmore⟩ :=
      exists_newline_of_endsWithin hnewline hsplit (.concat front closing (by decide)) others.suffix
    obtain ⟨steps', log', rfl, rfl, hrun⟩ := ih hmore
    refine ⟨_ :: steps', bodyLog ++ ⟨ls, .definition p, mid⟩ :: log', rfl, by simp, ?_⟩
    exact .definition opening body closing complete_eq hrun

/-! ## Statements on whole lines -/

/-- The last lexeme, if there is one, is a newline. -/
def EndsLine (ls : List Lexeme) : Prop :=
  ∀ l ∈ ls.getLast?, l.kind = .newline

/-- Statements on whole lines are read alike wherever these stand. -/
theorem Run.transport_lines (h : Run table (used ++ rest) steps log table' rest)
    (hused : EndsLine used) (harity : table.SameArities t) (halike : Alike used used')
    (rest' : List Lexeme) :
    ∃ steps' log' t', Run t (used' ++ rest') steps' log' t' rest' ∧
      unplacedStatements steps' = unplacedStatements steps ∧
      unplacedStatements log' = unplacedStatements log ∧ table'.SameArities t' := by
  rcases List.eq_nil_or_concat used with rfl | ⟨front, newline, rfl⟩
  · obtain ⟨rfl, rfl, rfl, -⟩ := h.eq_nil (Nat.le_refl _)
    rw [halike.nil_eq]
    exact ⟨[], [], t, .done, rfl, rfl, harity⟩
  · have hnewline := hused newline (by simp)
    obtain ⟨front', last, rfl, hfront, hlast⟩ : ∃ front' last, used' = front' ++ last ∧
        Alike front front' ∧ Alike [newline] last := by
      rw [List.concat_eq_append] at halike
      exact halike.exists_append
    obtain ⟨newline', last, rfl, hkind, hnil⟩ := hlast.exists_cons
    cases hnil.nil_eq
    rw [List.concat_eq_append, List.append_assoc, List.singleton_append] at h
    rw [List.append_assoc, List.singleton_append]
    obtain ⟨steps, log, rfl, rfl, hrun⟩ := h.exists_line hnewline rfl
    obtain ⟨before, hbefore, htransport⟩ := hrun.transport
    cases List.append_cancel_right hbefore
    obtain ⟨steps', log', t', hrun', hsteps, hlog, harity'⟩ :=
      htransport t front' (newline' :: rest') harity hfront (.cons hkind)
    have hblank : Run t' (newline' :: rest') [⟨newline' :: rest', .blank, rest'⟩]
        [⟨newline' :: rest', .blank, rest'⟩] t' rest' :=
      .blank ((kind_eq_of_unplaced_eq hkind).trans hnewline) .done
    refine ⟨_, _, t', hrun'.append hblank, ?_, ?_, harity'⟩
    · rw [unplacedStatements_append, unplacedStatements_append, hsteps]
      rfl
    · rw [unplacedStatements_append, unplacedStatements_append, hlog]
      rfl

/-! ## Alias directives on whole lines -/

theorem aliasDirective?_of_alike (h : Alike ls ls') : aliasDirective? ls' = aliasDirective? ls := by
  match ls with
  | [] => rw [h.nil_eq]
  | [l] =>
    obtain ⟨l', _, rfl, -, h⟩ := h.exists_cons
    rw [h.nil_eq]
    rfl
  | [l, m] =>
    obtain ⟨l', _, rfl, -, h⟩ := h.exists_cons
    obtain ⟨m', _, rfl, -, h⟩ := h.exists_cons
    rw [h.nil_eq]
    rfl
  | l :: m :: n :: _ =>
    obtain ⟨l', _, rfl, hl, h⟩ := h.exists_cons
    obtain ⟨m', _, rfl, hm, h⟩ := h.exists_cons
    obtain ⟨n', _, rfl, hn, -⟩ := h.exists_cons
    simp only [aliasDirective?, kind_eq_of_unplaced_eq hl, text_eq_of_unplaced_eq hl,
      kind_eq_of_unplaced_eq hm, unmarked_eq_of_unplaced_eq hm, kind_eq_of_unplaced_eq hn,
      unmarked_eq_of_unplaced_eq hn]

theorem directives_of_alike (h : Alike ls ls') : directives ls' = directives ls := by
  induction ls generalizing ls' with
  | nil => rw [h.nil_eq]
  | cons l ls ih =>
    have hfirst := aliasDirective?_of_alike h
    obtain ⟨l', ls', rfl, -, h⟩ := h.exists_cons
    rw [directives, directives, hfirst, ih h]

/-- No directive goes on behind the end of a line. -/
theorem aliasDirective?_append_lines (h : EndsLine (l :: ls)) (rest : List Lexeme) :
    aliasDirective? (l :: (ls ++ rest)) = aliasDirective? (l :: ls) := by
  match ls with
  | [] =>
    have hl : l.kind ≠ .symbol := by rw [h l rfl]; decide
    match rest with
    | [] => rfl
    | [_] => rfl
    | _ :: _ :: _ => exact if_neg fun hdirective => hl hdirective.1
  | [m] =>
    have hm : m.kind ≠ .quote := by rw [h m rfl]; decide
    match rest with
    | [] => rfl
    | _ :: _ => exact if_neg fun hdirective => hm hdirective.2.2.1
  | _ :: _ :: _ => rfl

theorem directives_append_lines (h : EndsLine ls) (rest : List Lexeme) :
    directives (ls ++ rest) = directives ls ++ directives rest := by
  induction ls with
  | nil => rfl
  | cons l ls ih =>
    have hls : EndsLine ls := by
      intro m hm
      refine h m ?_
      rw [List.getLast?_cons, show ls.getLast? = some m from hm]
      rfl
    rw [List.cons_append, directives, directives, aliasDirective?_append_lines h rest, ih hls,
      List.append_assoc]

end Logo.Reader
