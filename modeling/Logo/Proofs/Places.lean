import Logo.Proofs.LastPass

/-!
# Reading without places

Readers look at the kinds and the texts of lexemes and at the decision about signs, but not at
places, and they ask a procedure table for nothing but the numbers of inputs.  So what is read from
some lexemes is read from other ones that differ in their places alone, in any table with the same
numbers of inputs, whatever stands behind them, as long as it stops phrases alike
(`Reads.transport`, `Run.transport`).

Places show in one result, the line of a procedure.
-/

namespace Logo

/-- The lexeme at the start of a text. -/
def Lexeme.unplaced (l : Lexeme) : Lexeme :=
  { l with token := { l.token with position := .start } }

/-- The procedure without the line where its definition starts. -/
def Procedure.unplaced (p : Procedure) : Procedure :=
  { p with line := none }

/-- The statement without the line of a definition. -/
def Statement.unplaced : Statement → Statement
  | definition p => definition p.unplaced
  | s => s

theorem Procedure.key_eq_of_unplaced_eq {p q : Procedure} (h : p.unplaced = q.unplaced) :
    p.key = q.key := by
  have hname : p.unplaced.name = q.unplaced.name := by rw [h]
  change p.name = q.name at hname
  rw [key, hname, key]

theorem Procedure.arity_eq_of_unplaced_eq {p q : Procedure} (h : p.unplaced = q.unplaced) :
    p.arity = q.arity := by
  have hparams : p.unplaced.params = q.unplaced.params := by rw [h]
  change p.params = q.params at hparams
  rw [arity, hparams, arity]

/-- The tables hold procedures with the same numbers of inputs. -/
def ProcedureTable.SameArities (table table' : ProcedureTable) : Prop :=
  ∀ key, (table.entries.get? key).map Procedure.arity =
    (table'.entries.get? key).map Procedure.arity

namespace ProcedureTable.SameArities

variable {table table' : ProcedureTable} {p q : Procedure}

theorem arity?_eq (h : SameArities table table') (name : String) :
    table.arity? name = table'.arity? name :=
  h (Text.toLower name)

/-- Storing procedures of one name and one number of inputs keeps the numbers of inputs the same. -/
theorem define (h : SameArities table table') (hkey : p.key = q.key) (harity : p.arity = q.arity) :
    SameArities (table.define p) (table'.define q) := by
  intro key
  rw [get?_define, get?_define, hkey]
  split
  · rw [Option.map_some, Option.map_some, harity]
  · exact h key

end ProcedureTable.SameArities

namespace Lexeme

variable {l l' : Lexeme} {ls ls' ms : List Lexeme}

/-- The lexemes differ in their places at most. -/
def Alike (ls ls' : List Lexeme) : Prop :=
  ls.map unplaced = ls'.map unplaced

theorem kind_eq_of_unplaced_eq (h : l.unplaced = l'.unplaced) : l'.kind = l.kind :=
  (congrArg kind h).symm

theorem text_eq_of_unplaced_eq (h : l.unplaced = l'.unplaced) : l'.token.text = l.token.text :=
  (congrArg (·.token.text) h).symm

theorem unmarked_eq_of_unplaced_eq (h : l.unplaced = l'.unplaced) :
    l'.token.unmarked = l.token.unmarked := by
  rw [Token.unmarked, text_eq_of_unplaced_eq h, Token.unmarked]

theorem isSign_eq_of_unplaced_eq (h : l.unplaced = l'.unplaced) : l'.isSign = l.isSign :=
  (congrArg isSign h).symm

namespace Alike

theorem refl : Alike ls ls := rfl

theorem symm (h : Alike ls ls') : Alike ls' ls := Eq.symm h

theorem trans (h : Alike ls ls') (h' : Alike ls' ms) : Alike ls ms := Eq.trans h h'

/-- Lexemes that are alike piece by piece are alike. -/
theorem append {ls₁ ls₂ ms₁ ms₂ : List Lexeme} (h₁ : Alike ls₁ ms₁) (h₂ : Alike ls₂ ms₂) :
    Alike (ls₁ ++ ls₂) (ms₁ ++ ms₂) := by
  rw [Alike, List.map_append, List.map_append, show ls₁.map unplaced = _ from h₁,
    show ls₂.map unplaced = _ from h₂]

theorem length_eq (h : Alike ls ls') : ls.length = ls'.length := by
  simpa using congrArg List.length h

theorem exists_cons (h : Alike (l :: ls) ms) :
    ∃ l' ls', ms = l' :: ls' ∧ l.unplaced = l'.unplaced ∧ Alike ls ls' := by
  obtain ⟨l', ls', rfl, hl, hls⟩ := List.map_eq_cons_iff.1 (Eq.symm h)
  exact ⟨l', ls', rfl, hl.symm, hls.symm⟩

/-- What is alike to two pieces can be cut where the first piece ends. -/
theorem exists_append {ls₁ ls₂ : List Lexeme} (h : Alike (ls₁ ++ ls₂) ms) :
    ∃ ms₁ ms₂, ms = ms₁ ++ ms₂ ∧ Alike ls₁ ms₁ ∧ Alike ls₂ ms₂ := by
  rw [Alike, List.map_append] at h
  obtain ⟨ms₁, ms₂, rfl, h₁, h₂⟩ := List.map_eq_append_iff.1 h.symm
  exact ⟨ms₁, ms₂, rfl, h₁.symm, h₂.symm⟩

theorem nil_eq (h : Alike [] ms) : ms = [] :=
  List.map_eq_nil_iff.1 (Eq.symm h)

end Alike

end Lexeme

namespace Reader

open Lexeme

variable {table table' t : ProcedureTable} {phrase : Phrase} {levels : List Operators}
  {operators : Operators} {l l' : Lexeme} {ls ls' used used' mid rest rest' : List Lexeme}
  {node : Node} {nodes : List Node} {steps log : List Step}

/-! ## What stands behind a phrase -/

theorem kind_ahead_of_alike (h : Alike ls ls') : (ahead ls').kind = (ahead ls).kind := by
  cases ls with
  | nil => rw [h.nil_eq]
  | cons l ls =>
    obtain ⟨l', ls', rfl, hl, -⟩ := h.exists_cons
    exact kind_eq_of_unplaced_eq hl

/-- What ends a phrase before the one rest ends it before the other. -/
structure StopsAlike (rest rest' : List Lexeme) : Prop where
  operator : ∀ operators ∈ precedence, operator? operators rest = none →
    operator? operators rest' = none
  paren : (ahead rest).kind = .rightParen → (ahead rest').kind = .rightParen

namespace StopsAlike

theorem refl : StopsAlike rest rest :=
  ⟨fun _ _ h => h, fun h => h⟩

/-- A rest that starts with an alike lexeme is ended alike, as only the lexeme ahead is looked
at. -/
theorem cons (h : l.unplaced = l'.unplaced) : StopsAlike (l :: ls) (l' :: ls') where
  operator operators _ hnone := by
    rwa [operator?, isSign_eq_of_unplaced_eq h, kind_eq_of_unplaced_eq h]
  paren hright := (kind_eq_of_unplaced_eq h).trans hright

/-- What was read in between does not matter, if it is alike. -/
theorem append (hused : Alike used used') (h : StopsAlike rest rest') :
    StopsAlike (used ++ rest) (used' ++ rest') := by
  cases used with
  | nil =>
    rw [hused.nil_eq]
    exact h
  | cons l used =>
    obtain ⟨l', used', rfl, hl, -⟩ := hused.exists_cons
    exact .cons hl

/-- Alike rests are ended alike. -/
theorem of_alike (h : Alike rest rest') : StopsAlike rest rest' := by
  have hnil : StopsAlike (rest ++ []) (rest' ++ []) := .append h .refl
  rwa [List.append_nil, List.append_nil] at hnil

/-- Whatever a phrase ends before, it ends before what is no operator. -/
theorem of_isOperator (hparen : (ahead rest).kind ≠ .rightParen)
    (hoperator : isOperator (ahead rest').kind = false) : StopsAlike rest rest' where
  operator operators hoperators _ := by
    cases rest' with
    | nil => rfl
    | cons l ls =>
      rw [Option.eq_none_iff_forall_ne_some]
      intro name hname
      have hl : isOperator l.kind = true := (infix_of_operator? hoperators hname).1
      exact absurd (hl.symm.trans hoperator) nofun
  paren hright := absurd hright hparen

end StopsAlike

/-! ## Phrases -/

/-- A list is read from the lexemes up to its end, wherever they stand and whatever follows. -/
theorem listItems_transport {outer : List (List Node)} {items : List Node}
    (h : listItems outer items ls = .ok (node, rest)) :
    ∃ used, ls = used ++ rest ∧ ∀ used' rest', Alike used used' →
      listItems outer items (used' ++ rest') = .ok (node, rest') := by
  induction ls generalizing outer items with
  | nil => cases h
  | cons l ls ih =>
    -- Whatever the lexeme is, the list goes on alike behind it.
    have hgoOn : ∀ {outer' items'}, listItems outer' items' ls = .ok (node, rest) →
        (∀ l' more, l.unplaced = l'.unplaced →
          listItems outer items (l' :: more) = listItems outer' items' more) →
        ∃ used, l :: ls = used ++ rest ∧ ∀ used' rest', Alike used used' →
          listItems outer items (used' ++ rest') = .ok (node, rest') := by
      intro outer' items' hls hmore
      obtain ⟨used, rfl, hused⟩ := ih hls
      refine ⟨l :: used, rfl, fun used' rest' halike => ?_⟩
      obtain ⟨l', used', rfl, hl, hothers⟩ := halike.exists_cons
      rw [List.cons_append, hmore l' _ hl]
      exact hused used' rest' hothers
    cases hkind : l.kind with
    | rightBracket =>
      cases outer with
      | nil =>
        simp only [listItems, hkind] at h
        cases h
        refine ⟨[l], rfl, fun used' rest' halike => ?_⟩
        obtain ⟨l', used', rfl, hl, hothers⟩ := halike.exists_cons
        rw [hothers.nil_eq]
        simp [listItems, kind_eq_of_unplaced_eq hl, hkind]
      | cons around outer =>
        simp only [listItems, hkind] at h
        refine hgoOn h fun l' more hl => ?_
        simp only [listItems, kind_eq_of_unplaced_eq hl, hkind]
    | eof =>
      simp only [listItems, hkind] at h
      cases h
    | _ =>
      simp only [listItems, hkind] at h
      refine hgoOn h fun l' more hl => ?_
      simp only [listItems, kind_eq_of_unplaced_eq hl, text_eq_of_unplaced_eq hl, hkind]

/-- A number that is read is read from its text, not from its place. -/
theorem number_eq_ok_of_eq_ok {token token' : Token} {text : String}
    (h : number token text = .ok node) : number token' text = .ok node := by
  rw [number] at h ⊢
  cases hwhole : if '.' ∈ text.toList then none else Decimal.readInt64? text with
  | some value =>
    rw [hwhole] at h
    exact h
  | none =>
    rw [hwhole] at h
    cases hvalue : Decimal.readFloat? text with
    | none => simp [hvalue] at h
    | some value =>
      rw [hvalue] at h
      exact h

theorem literal?_of_unplaced_eq (h : l.unplaced = l'.unplaced) (hnode : literal? l = some node) :
    literal? l' = some node := by
  rw [literal?] at hnode ⊢
  rw [kind_eq_of_unplaced_eq h]
  cases hkind : l.kind with
  | number =>
    rw [hkind] at hnode
    dsimp only at hnode ⊢
    cases hvalue : number l.token l.token.text with
    | error e =>
      rw [hvalue] at hnode
      cases hnode
    | ok value =>
      rw [text_eq_of_unplaced_eq h, number_eq_ok_of_eq_ok hvalue]
      rwa [hvalue] at hnode
  | quote | reference =>
    rw [hkind] at hnode
    dsimp only at hnode ⊢
    rwa [unmarked_eq_of_unplaced_eq h]
  | _ => rwa [hkind] at hnode

/-- How many inputs a name ahead takes depends on the table alone. -/
theorem callee?_cons (h : l.unplaced = l'.unplaced) (harity : table.SameArities t) :
    callee? t (l' :: ls') = callee? table (l :: ls) := by
  have hkind : (ahead (l' :: ls')).kind = (ahead (l :: ls)).kind := kind_eq_of_unplaced_eq h
  have htext : (ahead (l' :: ls')).text = (ahead (l :: ls)).text := text_eq_of_unplaced_eq h
  rw [callee?, callee?, hkind, htext, harity.arity?_eq]

/-- Phrases are read alike wherever they stand. -/
theorem Reads.transport (h : Reads table phrase ls nodes rest)
    (hlevels : phrase.levels ⊆ precedence) (harity : table.SameArities t) :
    ∃ used, ls = used ++ rest ∧ ∀ used' rest', Alike used used' → StopsAlike rest rest' →
      Reads t phrase (used' ++ rest') nodes rest' := by
  induction h with
  | @literal l ls node word =>
    refine ⟨[l], rfl, fun used' rest' hused hrest => ?_⟩
    obtain ⟨l', used', rfl, hl, hnil⟩ := hused.exists_cons
    rw [hnil.nil_eq]
    exact .literal (literal?_of_unplaced_eq hl word)
  | @signed l m ls node minus digits value =>
    refine ⟨[l, m], rfl, fun used' rest' hused hrest => ?_⟩
    obtain ⟨l', used', rfl, hl, hm⟩ := hused.exists_cons
    obtain ⟨m', used', rfl, hm, hnil⟩ := hm.exists_cons
    rw [hnil.nil_eq]
    refine .signed ((kind_eq_of_unplaced_eq hl).trans minus)
      ((kind_eq_of_unplaced_eq hm).trans digits) ?_
    rw [text_eq_of_unplaced_eq hm]
    exact number_eq_ok_of_eq_ok value
  | @list l ls rest node bracket items =>
    obtain ⟨used, rfl, hitems⟩ := listItems_transport items
    refine ⟨l :: used, rfl, fun used' rest' hused hrest => ?_⟩
    obtain ⟨l', used', rfl, hl, hothers⟩ := hused.exists_cons
    exact .list ((kind_eq_of_unplaced_eq hl).trans bracket) (hitems used' rest' hothers)
  | @symbol l ls name undefined =>
    refine ⟨[l], rfl, fun used' rest' hused hrest => ?_⟩
    obtain ⟨l', used', rfl, hl, hnil⟩ := hused.exists_cons
    rw [hnil.nil_eq, ← text_eq_of_unplaced_eq hl]
    refine .symbol ((kind_eq_of_unplaced_eq hl).trans name) ?_
    rw [text_eq_of_unplaced_eq hl, ← harity.arity?_eq]
    exact undefined
  | @call l ls rest arity inputs name defined _ ih =>
    obtain ⟨used, rfl, hinputs⟩ := ih (List.nil_subset _)
    refine ⟨l :: used, rfl, fun used' rest' hused hrest => ?_⟩
    obtain ⟨l', used', rfl, hl, hothers⟩ := hused.exists_cons
    rw [← text_eq_of_unplaced_eq hl]
    refine .call ((kind_eq_of_unplaced_eq hl).trans name) ?_ (hinputs used' rest' hothers hrest)
    rw [text_eq_of_unplaced_eq hl, ← harity.arity?_eq]
    exact defined
  | @parenCall l m r ls rest arity inputs left name defined _ right ih =>
    obtain ⟨used, rfl, hinputs⟩ := ih (List.nil_subset _)
    refine ⟨l :: m :: (used ++ [r]), by simp, fun used' rest' hused hrest => ?_⟩
    obtain ⟨l', used', rfl, hl, hused⟩ := hused.exists_cons
    obtain ⟨m', used', rfl, hm, hused⟩ := hused.exists_cons
    obtain ⟨used', last, rfl, hfront, hlast⟩ := hused.exists_append
    obtain ⟨r', last, rfl, hr, hnil⟩ := hlast.exists_cons
    rw [hnil.nil_eq, ← text_eq_of_unplaced_eq hm, List.cons_append, List.cons_append,
      List.append_assoc]
    refine .parenCall ((kind_eq_of_unplaced_eq hl).trans left)
      ((kind_eq_of_unplaced_eq hm).trans name) ?_
      (hinputs used' (r' :: rest') hfront (.cons hr)) ((kind_eq_of_unplaced_eq hr).trans right)
    rw [text_eq_of_unplaced_eq hm, ← harity.arity?_eq]
    exact defined
  | @group l r ls rest node left no_callee inner right ih =>
    obtain ⟨first, more, rfl, -⟩ := inner.exists_opening rfl
    obtain ⟨used, heq, hinner⟩ := ih (List.Subset.refl _)
    refine ⟨l :: (used ++ [r]), by simp [heq], fun used' rest' hused hrest => ?_⟩
    obtain ⟨l', used', rfl, hl, hused⟩ := hused.exists_cons
    obtain ⟨used', last, rfl, hfront, hlast⟩ := hused.exists_append
    obtain ⟨r', last, rfl, hr, hnil⟩ := hlast.exists_cons
    rw [hnil.nil_eq, List.cons_append, List.append_assoc]
    refine .group ((kind_eq_of_unplaced_eq hl).trans left) ?_
      (hinner used' (r' :: rest') hfront (.cons hr)) ((kind_eq_of_unplaced_eq hr).trans right)
    cases used with
    | nil =>
      cases heq
      rw [hfront.nil_eq, ← no_callee]
      exact callee?_cons hr harity
    | cons m used =>
      cases heq
      obtain ⟨m', used', rfl, hm, -⟩ := hfront.exists_cons
      rw [← no_callee]
      exact callee?_cons hm harity
  | level _ _ ihFirst ihOthers =>
    obtain ⟨used, rfl, hfirst⟩ := ihFirst (List.subset_of_cons_subset hlevels)
    obtain ⟨more, rfl, hothers⟩ := ihOthers hlevels
    refine ⟨used ++ more, (List.append_assoc _ _ _).symm, fun used' rest' hused hrest => ?_⟩
    obtain ⟨used', more', rfl, hused, hmore⟩ := hused.exists_append
    rw [List.append_assoc]
    exact .level (hfirst _ _ hused (.append hmore hrest)) (hothers _ _ hmore hrest)
  | chainEnd no_operator =>
    refine ⟨[], rfl, fun used' rest' hused hrest => ?_⟩
    rw [hused.nil_eq]
    exact .chainEnd (hrest.operator _ (hlevels List.mem_cons_self) no_operator)
  | @chainStep operators levels l ls mid rest left right node name operator _ _ ihNext ihOthers =>
    obtain ⟨used, rfl, hnext⟩ := ihNext (List.subset_of_cons_subset hlevels)
    obtain ⟨more, rfl, hothers⟩ := ihOthers hlevels
    refine ⟨l :: (used ++ more), by simp, fun used' rest' hused hrest => ?_⟩
    obtain ⟨l', used', rfl, hl, hused⟩ := hused.exists_cons
    obtain ⟨used', more', rfl, hused, hmore⟩ := hused.exists_append
    rw [List.cons_append, List.append_assoc]
    refine .chainStep ?_ (hnext _ _ hused (.append hmore hrest)) (hothers _ _ hmore hrest)
    rw [operator?, isSign_eq_of_unplaced_eq hl, kind_eq_of_unplaced_eq hl]
    exact operator
  | noInput =>
    refine ⟨[], rfl, fun used' rest' hused hrest => ?_⟩
    rw [hused.nil_eq]
    exact .noInput
  | input _ _ ihFirst ihOthers =>
    obtain ⟨used, rfl, hfirst⟩ := ihFirst (List.Subset.refl _)
    obtain ⟨more, rfl, hothers⟩ := ihOthers (List.nil_subset _)
    refine ⟨used ++ more, (List.append_assoc _ _ _).symm, fun used' rest' hused hrest => ?_⟩
    obtain ⟨used', more', rfl, hused, hmore⟩ := hused.exists_append
    rw [List.append_assoc]
    exact .input (hfirst _ _ hused (.append hmore hrest)) (hothers _ _ hmore hrest)
  | @parenEnd r ls right =>
    refine ⟨[], rfl, fun used' rest' hused hrest => ?_⟩
    rw [hused.nil_eq]
    have hright := hrest.paren right
    cases rest' with
    | nil => cases hright
    | cons r' rest' => exact .parenEnd hright
  | @parenLine l ls rest nodes newline _ ih =>
    obtain ⟨used, rfl, hothers⟩ := ih (List.nil_subset _)
    refine ⟨l :: used, rfl, fun used' rest' hused hrest => ?_⟩
    obtain ⟨l', used', rfl, hl, hused⟩ := hused.exists_cons
    exact .parenLine ((kind_eq_of_unplaced_eq hl).trans newline) (hothers _ _ hused hrest)
  | parenInput _ _ ihFirst ihOthers =>
    obtain ⟨used, rfl, hfirst⟩ := ihFirst (List.Subset.refl _)
    obtain ⟨more, rfl, hothers⟩ := ihOthers (List.nil_subset _)
    refine ⟨used ++ more, (List.append_assoc _ _ _).symm, fun used' rest' hused hrest => ?_⟩
    obtain ⟨used', more', rfl, hused, hmore⟩ := hused.exists_append
    rw [List.append_assoc]
    exact .parenInput (hfirst _ _ hused (.append hmore hrest)) (hothers _ _ hmore hrest)

/-- What counts of a table are the numbers of inputs. -/
theorem Reads.congr (h : Reads table phrase ls nodes rest) (hlevels : phrase.levels ⊆ precedence)
    (harity : table.SameArities t) : Reads t phrase ls nodes rest := by
  obtain ⟨used, rfl, hused⟩ := h.transport hlevels harity
  exact hused used rest .refl .refl

/-! ## Runs -/

/-- Parameters are told by their class, and read without their marks. -/
theorem references_transport (hls : ∀ l ∈ ls, l.kind = .reference) (h : Alike ls ls') :
    (∀ l ∈ ls', l.kind = .reference) ∧ ls'.map (·.token.unmarked) = ls.map (·.token.unmarked) := by
  induction ls generalizing ls' with
  | nil =>
    rw [h.nil_eq]
    exact ⟨nofun, rfl⟩
  | cons l ls ih =>
    obtain ⟨l', ls', rfl, hl, hothers⟩ := h.exists_cons
    rw [List.forall_mem_cons] at hls ⊢
    obtain ⟨hkinds, hnames⟩ := ih hls.2 hothers
    refine ⟨⟨(kind_eq_of_unplaced_eq hl).trans hls.1, hkinds⟩, ?_⟩
    rw [List.map_cons, List.map_cons, unmarked_eq_of_unplaced_eq hl, hnames]

/-- A header is read from its own lexemes, but for the number of its line. -/
theorem headerLine_transport {h : Header} {line : Nat} {inner : List Lexeme}
    (hread : headerLine ls = .ok ((h, line), inner)) :
    ∃ used, ls = used ++ inner ∧ ∀ used' inner', Alike used used' →
      ∃ line', headerLine (used' ++ inner') = .ok ((h, line'), inner') := by
  obtain ⟨o, name, params, newline, rfl, ho, hname, hparams, hnewline, rfl, -⟩ :=
    headerLine_eq_ok_iff.1 hread
  refine ⟨o :: name :: (params ++ [newline]), by simp, fun used' inner' hused => ?_⟩
  obtain ⟨o', used', rfl, ho', hused⟩ := hused.exists_cons
  obtain ⟨name', used', rfl, hname', hused⟩ := hused.exists_cons
  obtain ⟨params', last, rfl, hparams', hlast⟩ := hused.exists_append
  obtain ⟨newline', last, rfl, hnewline', hnil⟩ := hlast.exists_cons
  obtain ⟨hkinds, hnames⟩ := references_transport hparams hparams'
  refine ⟨o'.token.position.line, headerLine_eq_ok_iff.2 ⟨o', name', params', newline', ?_,
    (kind_eq_of_unplaced_eq ho').trans ho, (kind_eq_of_unplaced_eq hname').trans hname, hkinds,
    (kind_eq_of_unplaced_eq hnewline').trans hnewline, ?_, rfl⟩⟩
  · rw [hnil.nil_eq]
    simp
  · rw [text_eq_of_unplaced_eq hname', hnames]

/-- The text of a definition has no places in it. -/
theorem definitionText_congr (atLineStart : Bool) (h : Alike ls ls') :
    definitionText atLineStart ls' = definitionText atLineStart ls := by
  induction ls generalizing ls' atLineStart with
  | nil => rw [h.nil_eq]
  | cons l ls ih =>
    obtain ⟨l', ls', rfl, hl, hls⟩ := h.exists_cons
    simp only [definitionText, kind_eq_of_unplaced_eq hl, text_eq_of_unplaced_eq hl, ih _ hls]

/-- A completed definition is the same up to the line where it starts. -/
theorem unplaced_complete (h : Header) (line line' : Nat) (nodes : List Node)
    (hused : Alike used used') (rest rest' : List Lexeme) :
    (complete h line' nodes (used' ++ rest') rest').unplaced =
      (complete h line nodes (used ++ rest) rest).unplaced := by
  simp only [complete, List.length_append, Nat.add_sub_cancel, List.take_left',
    definitionText_congr true hused]
  rfl

theorem Step.expression?_eq_unplaced (step : Step) :
    step.expression? = Step.expression? ⟨[], step.statement.unplaced, []⟩ := by
  obtain ⟨_, s, _⟩ := step
  cases s <;> rfl

/-- The statements of steps, without lines. -/
def unplacedStatements (steps : List Step) : List Statement :=
  steps.map fun step => step.statement.unplaced

theorem unplacedStatements_cons (step : Step) (steps : List Step) :
    unplacedStatements (step :: steps) = step.statement.unplaced :: unplacedStatements steps := rfl

theorem unplacedStatements_append (steps steps' : List Step) :
    unplacedStatements (steps ++ steps') = unplacedStatements steps ++ unplacedStatements steps' :=
  List.map_append

/-- Steps with the same statements give the same expressions. -/
theorem filterMap_expression?_eq {steps steps' : List Step}
    (h : unplacedStatements steps' = unplacedStatements steps) :
    steps'.filterMap Step.expression? = steps.filterMap Step.expression? := by
  induction steps generalizing steps' with
  | nil => rw [List.map_eq_nil_iff.1 h]
  | cons step steps ih =>
    obtain ⟨step', steps', rfl, hstep, hsteps⟩ := List.map_eq_cons_iff.1 h
    rw [List.filterMap_cons, List.filterMap_cons, Step.expression?_eq_unplaced step',
      Step.expression?_eq_unplaced step, hstep, ih hsteps]

/-- Runs are made alike wherever their lexemes stand. -/
theorem Run.transport (h : Run table ls steps log table' rest) :
    ∃ used, ls = used ++ rest ∧ ∀ t used' rest', table.SameArities t → Alike used used' →
      StopsAlike rest rest' → ∃ steps' log' t', Run t (used' ++ rest') steps' log' t' rest' ∧
        unplacedStatements steps' = unplacedStatements steps ∧
        unplacedStatements log' = unplacedStatements log ∧ table'.SameArities t' := by
  induction h with
  | done =>
    refine ⟨[], rfl, fun t used' rest' harity hused hrest => ?_⟩
    rw [hused.nil_eq]
    exact ⟨[], [], t, .done, rfl, rfl, harity⟩
  | @blank table table' l ls rest steps log newline _ ih =>
    obtain ⟨used, rfl, hothers⟩ := ih
    refine ⟨l :: used, rfl, fun t used' rest' harity hused hrest => ?_⟩
    obtain ⟨l', used', rfl, hl, hused⟩ := hused.exists_cons
    obtain ⟨steps', log', t', hrun, hsteps, hlog, harity'⟩ :=
      hothers t used' rest' harity hused hrest
    refine ⟨_, _, t', .blank ((kind_eq_of_unplaced_eq hl).trans newline) hrun, ?_, ?_, harity'⟩
    · simp only [unplacedStatements_cons, hsteps]
    · simp only [unplacedStatements_cons, hlog]
  | @expression table table' ls mid rest node steps log first _ ih =>
    obtain ⟨more, rfl, hothers⟩ := ih
    obtain ⟨used, hls, -⟩ := first.transport (List.Subset.refl _) (fun _ => rfl)
    subst hls
    refine ⟨used ++ more, (List.append_assoc _ _ _).symm,
      fun t used' rest' harity hused hrest => ?_⟩
    obtain ⟨used', more', rfl, hfront, hmore⟩ := hused.exists_append
    obtain ⟨steps', log', t', hrun, hsteps, hlog, harity'⟩ :=
      hothers t more' rest' harity hmore hrest
    obtain ⟨used₁, hused₁, hfirst⟩ := first.transport (List.Subset.refl _) harity
    obtain rfl := List.append_cancel_right hused₁
    rw [List.append_assoc]
    refine ⟨_, _, t', .expression (hfirst used' _ hfront (.append hmore hrest)) hrun, ?_, ?_,
      harity'⟩
    · simp only [unplacedStatements_cons, hsteps]
    · simp only [unplacedStatements_cons, hlog]
  | @definition table table₁ table' e ls inner mid rest h line p bodySteps bodyLog steps log opening
      _ closing complete_eq _ ihBody ih =>
    obtain ⟨used, rfl, hopening⟩ := headerLine_transport opening
    obtain ⟨within, rfl, hbody⟩ := ihBody
    obtain ⟨more, rfl, hothers⟩ := ih
    refine ⟨used ++ (within ++ e :: more), by simp, fun t used' rest' harity hused hrest => ?_⟩
    obtain ⟨used', back, rfl, hfront, hback⟩ := hused.exists_append
    obtain ⟨within', back, rfl, hwithin, hback⟩ := hback.exists_append
    obtain ⟨e', more', rfl, he, hmore⟩ := hback.exists_cons
    obtain ⟨line', hopen⟩ := hopening used' (within' ++ e' :: (more' ++ rest')) hfront
    have harity₁ : (table.define (.ofHeader h.name h.params line)).SameArities
        (t.define (.ofHeader h.name h.params line')) := harity.define rfl rfl
    obtain ⟨bodySteps', bodyLog', t₁, hrun, hsteps, hlog, harity₂⟩ :=
      hbody _ within' (e' :: (more' ++ rest')) harity₁ hwithin (.cons he)
    have hcomplete : (complete h line' (bodySteps'.filterMap Step.expression?)
        (used' ++ (within' ++ e' :: (more' ++ rest'))) (more' ++ rest')).unplaced = p.unplaced := by
      have halike : Alike (used ++ (within ++ [e])) (used' ++ (within' ++ [e'])) := by
        simp only [Alike, List.map_append, List.map_cons, List.map_nil, he] at hfront hwithin ⊢
        rw [hfront, hwithin]
      have hcomplete := unplaced_complete h line line' (bodySteps.filterMap Step.expression?) halike
        (more ++ rest) (more' ++ rest')
      rw [complete_eq, filterMap_expression?_eq hsteps]
      simpa using hcomplete
    obtain ⟨steps', log', t', hothers, hsteps', hlog', harity'⟩ :=
      hothers _ more' rest' (harity₂.define (Procedure.key_eq_of_unplaced_eq hcomplete).symm
        (Procedure.arity_eq_of_unplaced_eq hcomplete).symm) hmore hrest
    have hstep : (Statement.definition _).unplaced = (Statement.definition p).unplaced :=
      congrArg Statement.definition hcomplete
    rw [List.append_assoc, List.append_assoc, List.cons_append]
    refine ⟨_, _, t', .definition hopen hrun ((kind_eq_of_unplaced_eq he).trans closing) rfl
      hothers, ?_, ?_, harity'⟩
    · simp only [unplacedStatements_cons, hstep, hsteps']
    · simp only [unplacedStatements_append, unplacedStatements_cons, hstep, hlog, hlog']

end Reader

end Logo
