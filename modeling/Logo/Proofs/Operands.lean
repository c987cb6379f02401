import Logo.Proofs.Joining
import Logo.Proofs.Nesting
import Logo.Proofs.Shape

/-!
# What operators stand between

`Forms table part ls` says that the lexemes `ls` are a complete part of an expression: an operand,
the inputs of a call, or what stands between the name and the closing parenthesis of a call in
parentheses.  It asks for nothing that the reader goes by: no precedence, no order of reading,
nothing about what follows.

What the reader takes for an operand is one (`Reads.forms`), and every operator in it joins two
operands (`Reads.placed`).  The minus of a negative number is the exception.  It has no operand
before it, or it touches the number and not the operand, or it starts the inputs of a call in
parentheses, whose name may look like an operand by itself (`Unjoined`).
-/

namespace Logo.Reader

open TokenRule Token

/-- The parts of an expression that can be complete. -/
inductive Part where
  | operand
  /-- A number of inputs. -/
  | inputs (count : Nat)
  /-- Inputs on any number of lines. -/
  | lines

/-- The kinds of words that are operands whatever the procedure table holds. -/
def isPlainWord : TokenClass → Bool
  | .trueWord | .falseWord | .nilWord | .number | .quote | .reference => true
  | _ => false

/-- The lexemes make up the part. -/
inductive Forms (table : ProcedureTable) : Part → List Lexeme → Prop
  | word {l : Lexeme} (plain : isPlainWord l.kind = true) : Forms table .operand [l]
  | symbol {l : Lexeme} (name : l.kind = .symbol) (undefined : table.arity? l.token.text = none) :
      Forms table .operand [l]
  | negative {l m : Lexeme} (minus : l.kind = .minus) (digits : m.kind = .number) :
      Forms table .operand [l, m]
  | list {l r : Lexeme} {ls : List Lexeme} (left : l.kind = .leftBracket)
      (listed : ∀ m ∈ ls, isListed m.kind = true) (nested : WellNested (ls.map Lexeme.kind))
      (right : r.kind = .rightBracket) : Forms table .operand (l :: (ls ++ [r]))
  | call {l : Lexeme} {ls : List Lexeme} {arity : Nat} (name : l.kind = .symbol)
      (defined : table.arity? l.token.text = some arity) (inputs : Forms table (.inputs arity) ls) :
      Forms table .operand (l :: ls)
  | parenCall {l m r : Lexeme} {ls : List Lexeme} {arity : Nat} (left : l.kind = .leftParen)
      (name : m.kind = .symbol) (defined : table.arity? m.token.text = some arity)
      (inputs : Forms table .lines ls) (right : r.kind = .rightParen) :
      Forms table .operand (l :: m :: (ls ++ [r]))
  | group {l r : Lexeme} {ls : List Lexeme} (left : l.kind = .leftParen)
      (inner : Forms table .operand ls) (right : r.kind = .rightParen) :
      Forms table .operand (l :: (ls ++ [r]))
  | operation {l : Lexeme} {ls ms : List Lexeme} (left : Forms table .operand ls)
      (operator : isOperator l.kind = true) (right : Forms table .operand ms) :
      Forms table .operand (ls ++ l :: ms)
  | noInput : Forms table (.inputs 0) []
  | input {count : Nat} {ls ms : List Lexeme} (first : Forms table .operand ls)
      (others : Forms table (.inputs count) ms) : Forms table (.inputs (count + 1)) (ls ++ ms)
  | noLine : Forms table .lines []
  | newline {l : Lexeme} {ls : List Lexeme} (newline : l.kind = .newline)
      (others : Forms table .lines ls) : Forms table .lines (l :: ls)
  | lineInput {ls ms : List Lexeme} (first : Forms table .operand ls)
      (others : Forms table .lines ms) : Forms table .lines (ls ++ ms)

/-- No operand ends right behind the lexemes before the minus, or the minus is a sign there, or a
call in parentheses has just been opened. -/
def Unjoined (table : ProcedureTable) (before : List Lexeme) (l : Lexeme) : Prop :=
  l.isSign = true ∨ (∀ left, left <:+ before → ¬ Forms table .operand left) ∨
    ∃ front paren name, before = front ++ [paren, name] ∧ paren.kind = .leftParen ∧
    name.kind = .symbol ∧
      table.defines name.token.text = true

/-- The lexeme stands between two complete operands, or it is the minus of a negative number. -/
def Placed (table : ProcedureTable) (before : List Lexeme) (l : Lexeme) (after : List Lexeme) :
    Prop :=
  (∃ left right, left <:+ before ∧ right <+: after ∧ Forms table .operand left ∧
    Forms table .operand right) ∨
    l.kind = .minus ∧ (∃ m ∈ after.head?, m.kind = .number) ∧ Unjoined table before l

variable {table table' t : ProcedureTable} {part : Part} {phrase : Phrase} {levels : List Operators}
  {operators : Operators} {before ls mid used rest : List Lexeme} {l m : Lexeme} {node : Node}
  {nodes : List Node} {steps log : List Step} {P Q : List Lexeme → Lexeme → List Lexeme → Prop}

/-! ## How operands end -/

/-- The kinds of lexemes that operands end with. -/
def closesOperand : TokenClass → Bool
  | .trueWord | .falseWord | .nilWord | .number | .quote | .reference | .symbol | .rightBracket
  | .rightParen => true
  | _ => false

/-- An operand can end with the lexeme; a name that calls a procedure still waits for the inputs. -/
structure EndsOperand (table : ProcedureTable) (l : Lexeme) : Prop where
  closes : closesOperand l.kind = true
  no_input : l.kind = .symbol → ∀ arity, table.arity? l.token.text = some arity → arity = 0

theorem EndsOperand.of_kind {kind : TokenClass} (hl : l.kind = kind)
    (hcloses : closesOperand kind = true) (hsymbol : kind ≠ .symbol) : EndsOperand table l :=
  ⟨hl ▸ hcloses, fun hname => absurd (hl.symm.trans hname) hsymbol⟩

theorem EndsOperand.of_isPlainWord (h : isPlainWord l.kind = true) : EndsOperand table l := by
  cases hkind : l.kind with
  | trueWord | falseWord | nilWord | number | quote | reference => exact .of_kind hkind rfl nofun
  | _ =>
    rw [hkind] at h
    cases h

/-- How the lexemes of a part end. -/
def Part.Ends (table : ProcedureTable) (ls : List Lexeme) : Part → Prop
  | .operand => ∃ front l, ls = front ++ [l] ∧ EndsOperand table l
  | .inputs count => count = 0 ∧ ls = [] ∨ ∃ front l, ls = front ++ [l] ∧ EndsOperand table l
  | .lines => True

theorem Forms.ends (h : Forms table part ls) : part.Ends table ls := by
  induction h with
  | word plain => exact ⟨[], _, rfl, .of_isPlainWord plain⟩
  | symbol name undefined =>
    refine ⟨[], _, rfl, by rw [name]; rfl, fun _ arity harity => ?_⟩
    cases undefined.symm.trans harity
  | @negative l m minus digits => exact ⟨[l], m, rfl, .of_kind digits rfl nofun⟩
  | @list l r ls _ _ _ right => exact ⟨l :: ls, r, rfl, .of_kind right rfl nofun⟩
  | @call l ls arity name defined _ ih =>
    rcases ih with ⟨rfl, rfl⟩ | ⟨front, last, rfl, hlast⟩
    · refine ⟨[], l, rfl, by rw [name]; rfl, fun _ arity harity => ?_⟩
      exact (Option.some.inj (defined.symm.trans harity)).symm
    · exact ⟨l :: front, last, rfl, hlast⟩
  | @parenCall l m r ls _ _ _ _ _ right => exact ⟨l :: m :: ls, r, rfl, .of_kind right rfl nofun⟩
  | @group l r ls _ _ right => exact ⟨l :: ls, r, rfl, .of_kind right rfl nofun⟩
  | @operation l ls _ _ _ _ _ ih =>
    obtain ⟨front, last, rfl, hlast⟩ := ih
    exact ⟨ls ++ l :: front, last, by simp, hlast⟩
  | noInput => exact .inl ⟨rfl, rfl⟩
  | @input _ ls _ _ _ ihFirst ihOthers =>
    rcases ihOthers with ⟨-, rfl⟩ | ⟨front, last, rfl, hlast⟩
    · rw [List.append_nil]
      exact .inr ihFirst
    · exact .inr ⟨ls ++ front, last, by simp, hlast⟩
  | noLine | newline | lineInput => trivial

/-- No operand ends with a lexeme of another kind. -/
theorem unjoined_of_not_ends (h : ¬ EndsOperand table m) (l : Lexeme) :
    Unjoined table (before ++ [m]) l := by
  refine .inr (.inl fun left hleft hforms => h ?_)
  obtain ⟨front, last, rfl, hlast⟩ := hforms.ends
  obtain ⟨others, hothers⟩ := hleft
  rw [← List.append_assoc] at hothers
  rwa [List.singleton_inj.1 (List.append_inj_right' hothers rfl)] at hlast

/-- No operand is empty. -/
theorem unjoined_nil (l : Lexeme) : Unjoined table [] l := by
  refine .inr (.inl fun left hleft hforms => ?_)
  obtain ⟨front, last, rfl, -⟩ := hforms.ends
  exact absurd (List.suffix_nil.1 hleft) (by simp)

/-- Behind a lexeme that closes no operand, a minus joins nothing. -/
theorem unjoined_of_kind (h : closesOperand m.kind = false) (l : Lexeme) :
    Unjoined table (before ++ [m]) l := by
  refine unjoined_of_not_ends (fun hends => ?_) l
  have hcloses := hends.closes
  rw [h] at hcloses
  cases hcloses

theorem closesOperand_of_isOperator {kind : TokenClass} (h : isOperator kind = true) :
    closesOperand kind = false := by
  cases kind with
  | equal | equalEqual | bangEqual | less | greater | lessEqual | greaterEqual | plus | minus | star
  | slash => rfl
  | _ => cases h

/-- Behind the name of a procedure that takes inputs, none of them has been read. -/
theorem unjoined_of_arity {count : Nat} (hm : m.kind = .symbol)
    (harity : table.arity? m.token.text = some (count + 1)) (l : Lexeme) :
    Unjoined table (before ++ [m]) l := by
  refine unjoined_of_not_ends (fun hends => ?_) l
  cases hends.no_input hm _ harity

/-! ## Phrases are complete -/

/-- What the lexemes of a phrase make up. -/
def Phrase.Formed (table : ProcedureTable) (used : List Lexeme) : Phrase → Prop
  | .operand _ => Forms table .operand used
  | .chain _ _ _ => ∀ front, Forms table .operand front → Forms table .operand (front ++ used)
  | .inputs count => Forms table (.inputs count) used
  | .inputsToParen => Forms table .lines used

theorem isPlainWord_of_literal? (h : literal? l = some node) : isPlainWord l.kind = true := by
  rw [literal?] at h
  cases hkind : l.kind with
  | trueWord | falseWord | nilWord | number | quote | reference => rfl
  | _ => simp [hkind] at h

/-- What is read is complete. -/
theorem Reads.forms (h : Reads table phrase ls nodes rest) (hlevels : phrase.levels ⊆ precedence)
    (hls : Lexed 0 ls) : ∃ used, ls = used ++ rest ∧ phrase.Formed table used := by
  induction h with
  | literal word => exact ⟨[_], rfl, .word (isPlainWord_of_literal? word)⟩
  | @signed l m _ _ minus digits => exact ⟨[l, m], rfl, .negative minus digits⟩
  | @list l _ _ _ bracket items =>
    obtain ⟨used, r, rfl, hr, hlisted, hused⟩ := nests_items bracket hls items
    refine ⟨l :: (used ++ [r]), by simp, .list bracket (fun m hm => ?_) (hused []) hr⟩
    exact (hlisted m hm).isListed_kind
  | @symbol l _ name undefined => exact ⟨[l], rfl, .symbol name undefined⟩
  | @call l ls _ _ _ name defined _ ih =>
    obtain ⟨used, rfl, hused⟩ :=
      ih (List.nil_subset _) ((Crosses.cons name (by decide) ls).lexed hls)
    exact ⟨l :: used, rfl, .call name defined hused⟩
  | @parenCall l m r ls _ _ _ left name defined _ right ih =>
    have hinside :=
      ((Crosses.cons left (by decide) (m :: ls)).trans (.cons name (by decide) ls)).lexed hls
    obtain ⟨used, rfl, hused⟩ := ih (List.nil_subset _) hinside
    exact ⟨l :: m :: (used ++ [r]), by simp, .parenCall left name defined hused right⟩
  | @group l r ls _ _ left _ _ right ih =>
    obtain ⟨used, rfl, hused⟩ :=
      ih (List.Subset.refl _) ((Crosses.cons left (by decide) ls).lexed hls)
    exact ⟨l :: (used ++ [r]), by simp, .group left hused right⟩
  | level first _ ihFirst ihOthers =>
    have hsub := List.subset_of_cons_subset hlevels
    have hmid := (first.crosses hsub hls).lexed hls
    obtain ⟨used, rfl, hused⟩ := ihFirst hsub hls
    obtain ⟨more, rfl, hmore⟩ := ihOthers hlevels hmid
    exact ⟨used ++ more, by simp, hmore used hused⟩
  | chainEnd =>
    refine ⟨[], rfl, fun front hfront => ?_⟩
    rwa [List.append_nil]
  | @chainStep _ _ l _ _ _ _ _ _ _ operator next _ ihNext ihOthers =>
    have hsub := List.subset_of_cons_subset hlevels
    have hmem := hlevels List.mem_cons_self
    have hinside := (crosses_operator hmem operator).lexed hls
    have hmid := (next.crosses hsub hinside).lexed hinside
    obtain ⟨used, rfl, hused⟩ := ihNext hsub hinside
    obtain ⟨more, rfl, hmore⟩ := ihOthers hlevels hmid
    refine ⟨l :: (used ++ more), by simp, fun front hfront => ?_⟩
    have hjoined := hmore _ (.operation hfront (infix_of_operator? hmem operator).1 hused)
    rwa [List.append_assoc, List.cons_append] at hjoined
  | noInput => exact ⟨[], rfl, .noInput⟩
  | input first _ ihFirst ihOthers =>
    have hmid := (first.crosses (List.Subset.refl _) hls).lexed hls
    obtain ⟨used, rfl, hused⟩ := ihFirst (List.Subset.refl _) hls
    obtain ⟨more, rfl, hmore⟩ := ihOthers (List.nil_subset _) hmid
    exact ⟨used ++ more, by simp, .input hused hmore⟩
  | parenEnd => exact ⟨[], rfl, .noLine⟩
  | @parenLine l ls _ _ newline _ ih =>
    obtain ⟨used, rfl, hused⟩ :=
      ih (List.nil_subset _) ((Crosses.cons newline (by decide) ls).lexed hls)
    exact ⟨l :: used, rfl, .newline newline hused⟩
  | parenInput first _ ihFirst ihOthers =>
    have hmid := (first.crosses (List.Subset.refl _) hls).lexed hls
    obtain ⟨used, rfl, hused⟩ := ihFirst (List.Subset.refl _) hls
    obtain ⟨more, rfl, hmore⟩ := ihOthers (List.nil_subset _) hmid
    exact ⟨used ++ more, by simp, .lineInput hused hmore⟩

/-- Behind an operand no operator of its levels is ahead. -/
theorem Reads.no_operator (h : Reads table phrase ls nodes rest) :
    match phrase with
    | .operand levels => ∀ operators ∈ levels, operator? operators rest = none
    | .chain operators levels _ => (∀ operators ∈ levels, operator? operators ls = none) →
        ∀ other ∈ operators :: levels, operator? other rest = none
    | _ => True := by
  induction h with
  | literal | signed | list | symbol | call | parenCall | group =>
    exact fun _ h => absurd h List.not_mem_nil
  | level _ _ ihFirst ihOthers => exact ihOthers ihFirst
  | chainEnd no_operator => exact fun hlevels => List.forall_mem_cons.2 ⟨no_operator, hlevels⟩
  | chainStep _ _ _ ihNext ihOthers => exact fun _ => ihOthers ihNext
  | noInput | input | parenEnd | parenLine | parenInput => trivial

/-! ## Where operators stand -/

/-- The property holds of every operator between the lexemes and the rest, with what stands before
and after it. -/
def Throughout (P : List Lexeme → Lexeme → List Lexeme → Prop) (before ls rest : List Lexeme) :
    Prop :=
  ∀ front l after, ls = front ++ l :: after → rest <:+ after → isOperator l.kind = true →
    P (before ++ front) l after

namespace Throughout

theorem refl : Throughout P before ls ls := by
  rintro front l after rfl hsuffix
  have hlength := hsuffix.length_le
  rw [List.length_append, List.length_cons] at hlength
  omega

theorem single (h : isOperator l.kind = true → P before l ls) :
    Throughout P before (l :: ls) ls := by
  intro front m after hsplit hsuffix hoperator
  cases front with
  | nil =>
    cases hsplit
    rw [List.append_nil]
    exact h hoperator
  | cons _ front =>
    rw [List.cons_append, List.cons.injEq] at hsplit
    obtain ⟨-, rfl⟩ := hsplit
    have hlength := hsuffix.length_le
    rw [List.length_append, List.length_cons] at hlength
    omega

theorem cons {kind : TokenClass} (hl : l.kind = kind) (hkind : isOperator kind = false) :
    Throughout P before (l :: ls) ls := by
  refine single fun hoperator => ?_
  rw [hl, hkind] at hoperator
  cases hoperator

theorem trans (h : Throughout P before (used ++ mid) mid)
    (h' : Throughout P (before ++ used) mid rest) : Throughout P before (used ++ mid) rest := by
  intro front l after hsplit hsuffix hoperator
  rcases List.append_eq_append_iff.1 hsplit with ⟨back, rfl, hback⟩ | ⟨back, hused, hback⟩
  · rw [← List.append_assoc]
    exact h' back l after hback hsuffix hoperator
  · cases back with
    | nil =>
      rw [List.append_nil] at hused
      subst hused
      have hbehind := h' [] l after hback.symm hsuffix hoperator
      rwa [List.append_nil] at hbehind
    | cons c back =>
      rw [List.cons_append, List.cons.injEq] at hback
      exact h front l after hsplit ⟨back, hback.2.symm⟩ hoperator

/-- The first lexeme and what follows it. -/
theorem next (h : Throughout P before (l :: ls) ls) (h' : Throughout P (before ++ [l]) ls rest) :
    Throughout P before (l :: ls) rest :=
  @trans before ls [l] rest P h h'

theorem of_forall_ne (h : ∀ m ∈ used, isOperator m.kind = false) :
    Throughout P before (used ++ rest) rest := by
  induction used generalizing before with
  | nil => exact refl
  | cons m used ih =>
    rw [List.forall_mem_cons] at h
    exact (cons rfl h.1).next (ih h.2)

theorem mono (h : Throughout P before ls rest)
    (hPQ : ∀ front l after, P front l after → Q front l after) : Throughout Q before ls rest :=
  fun front l after hsplit hsuffix hoperator => hPQ _ _ _ (h front l after hsplit hsuffix hoperator)

end Throughout

/-- A minus at the front joins nothing. -/
def MayNegate (table : ProcedureTable) (before ls : List Lexeme) : Prop :=
  ∀ l ∈ ls.head?, l.kind = .minus → Unjoined table before l

/-- What stands before a phrase. -/
def Phrase.Opened (table : ProcedureTable) (before ls : List Lexeme) : Phrase → Prop
  | .chain _ _ _ => ∃ left, left <:+ before ∧ Forms table .operand left
  | .inputs 0 => True
  | _ => MayNegate table before ls

/-- Where an expression has ended, a minus is a sign. -/
theorem Reads.mayNegate (h : Reads table (.operand precedence) ls [node] mid) (t : ProcedureTable)
    (before : List Lexeme) : MayNegate t before mid := by
  intro l hl hminus
  have hnone := h.no_operator additive (by simp [precedence])
  cases mid with
  | nil => cases hl
  | cons m mid =>
    cases hl
    rw [operator?, hminus] at hnone
    split at hnone
    · next hsign => exact .inl hsign
    · cases hnone

/-- Every operator of what is read stands between operands, or is the minus of a negative number. -/
theorem Reads.placed (h : Reads table phrase ls nodes rest) (hlevels : phrase.levels ⊆ precedence)
    (hls : Lexed 0 ls) : ∀ before, phrase.Opened table before ls →
      Throughout (Placed table) before ls rest := by
  induction h with
  | @literal l _ _ word =>
    refine fun before _ => .single fun hoperator => ?_
    have hends : EndsOperand table l := .of_isPlainWord (isPlainWord_of_literal? word)
    have hcloses := hends.closes
    rw [closesOperand_of_isOperator hoperator] at hcloses
    cases hcloses
  | @signed l m ls _ minus digits =>
    intro before hopened
    refine Throughout.next (.single fun _ => .inr ⟨minus, ⟨m, rfl, digits⟩, ?_⟩) (.cons digits rfl)
    exact hopened l rfl minus
  | @list l _ _ _ bracket items =>
    obtain ⟨used, r, rfl, hr, hlisted, -⟩ := nests_items bracket hls items
    have hnone : ∀ m ∈ used, isOperator m.kind = false := by
      intro m hm
      rcases hlisted m hm with ⟨hkind, -⟩ | ⟨hkind, -⟩ | ⟨hkind, -⟩ <;> rw [hkind] <;> rfl
    exact fun before _ =>
      Throughout.next (.cons bracket rfl) ((Throughout.of_forall_ne hnone).trans (.cons hr rfl))
  | symbol name => exact fun before _ => .cons name rfl
  | @call l ls _ arity _ name defined _ ih =>
    have hinside := (Crosses.cons name (by decide) ls).lexed hls
    refine fun before _ => Throughout.next (.cons name rfl) (ih (List.nil_subset _) hinside _ ?_)
    cases arity with
    | zero => trivial
    | succ arity => exact fun m _ _ => unjoined_of_arity name defined m
  | @parenCall l m r ls rest _ _ left name defined inputs_read right ih =>
    have hinside :=
      ((Crosses.cons left (by decide) (m :: ls)).trans (.cons name (by decide) ls)).lexed hls
    intro before _
    obtain ⟨used, rfl, -⟩ := inputs_read.exists_used
    have hdefines : table.defines m.token.text = true := by
      rw [← table.arity?_isSome, defined]
      rfl
    have hopened : MayNegate table (before ++ [l] ++ [m]) (used ++ r :: rest) :=
      fun _ _ _ => .inr (.inr ⟨before, l, m, by simp, left, name, hdefines⟩)
    have hinputs := ih (List.nil_subset _) hinside _ hopened
    exact Throughout.next (.cons left rfl)
      (.next (.cons name rfl) (hinputs.trans (.cons right rfl)))
  | @group l r ls rest _ left _ inner right ih =>
    have hinside := (Crosses.cons left (by decide) ls).lexed hls
    intro before _
    obtain ⟨used, rfl, -⟩ := inner.exists_used
    have hopened : MayNegate table (before ++ [l]) (used ++ r :: rest) :=
      fun m _ _ => unjoined_of_kind (by rw [left]; rfl) m
    exact Throughout.next (.cons left rfl)
      ((ih (List.Subset.refl _) hinside _ hopened).trans (.cons right rfl))
  | @level operators levels ls mid rest _ _ first _ ihFirst ihOthers =>
    have hsub := List.subset_of_cons_subset hlevels
    have hmid := (first.crosses hsub hls).lexed hls
    intro before hopened
    obtain ⟨used, rfl, hused⟩ := first.forms hsub hls
    exact (ihFirst hsub hls before hopened).trans
      (ihOthers hlevels hmid (before ++ used) ⟨used, List.suffix_append _ _, hused⟩)
  | chainEnd => exact fun _ _ => .refl
  | @chainStep _ _ l ls mid rest _ _ _ _ operator next _ ihNext ihOthers =>
    have hsub := List.subset_of_cons_subset hlevels
    have hmem := hlevels List.mem_cons_self
    have hoperator := (infix_of_operator? hmem operator).1
    have hinside := (crosses_operator hmem operator).lexed hls
    have hmid := (next.crosses hsub hinside).lexed hinside
    rintro before ⟨left, hleft, hforms⟩
    obtain ⟨used, rfl, hused⟩ := next.forms hsub hinside
    -- The operand behind the operator is what stands before the next one.
    have hplaced : Placed table before l (used ++ mid) :=
      .inl ⟨left, used, hleft, List.prefix_append _ _, hforms, hused⟩
    have hopened : MayNegate table (before ++ [l]) (used ++ mid) :=
      fun m _ _ => unjoined_of_kind (closesOperand_of_isOperator hoperator) m
    exact Throughout.next (.single fun _ => hplaced) ((ihNext hsub hinside _ hopened).trans
      (ihOthers hlevels hmid _ ⟨used, List.suffix_append _ _, hused⟩))
  | noInput => exact fun _ _ => .refl
  | @input count ls mid rest _ _ first _ ihFirst ihOthers =>
    have hmid := (first.crosses (List.Subset.refl _) hls).lexed hls
    intro before hopened
    have hothers : ∀ before, (Phrase.inputs count).Opened table before mid := by
      cases count with
      | zero => exact fun _ => trivial
      | succ count => exact first.mayNegate table
    obtain ⟨used, rfl, -⟩ := first.exists_used
    exact (ihFirst (List.Subset.refl _) hls before hopened).trans
      (ihOthers (List.nil_subset _) hmid _ (hothers _))
  | parenEnd => exact fun _ _ => .refl
  | @parenLine l ls _ _ newline _ ih =>
    have hinside := (Crosses.cons newline (by decide) ls).lexed hls
    refine fun before _ => Throughout.next (.cons newline rfl) (ih (List.nil_subset _) hinside _ ?_)
    exact fun m _ _ => unjoined_of_kind (by rw [newline]; rfl) m
  | @parenInput ls mid rest _ _ first _ ihFirst ihOthers =>
    have hmid := (first.crosses (List.Subset.refl _) hls).lexed hls
    intro before hopened
    have hothers := first.mayNegate table
    obtain ⟨used, rfl, -⟩ := first.exists_used
    exact (ihFirst (List.Subset.refl _) hls before hopened).trans
      (ihOthers (List.nil_subset _) hmid _ (hothers _))

/-! ## Programs -/

/-- The operator is placed by the names that one of the tables knows. -/
def PlacedBy (Stable : ProcedureTable → Prop) (before : List Lexeme) (l : Lexeme)
    (after : List Lexeme) : Prop :=
  ∃ t, Stable t ∧ Placed t before l after

/-- Every operator of a run is placed by a table on its way. -/
theorem Run.placed (hrun : Run table ls steps log table' rest) (Stable : ProcedureTable → Prop)
    (hstable : ∀ heading ∈ headings ls, ∀ t p, p.key = heading.key → p.params = heading.params →
        Stable t → Stable (t.define p)) (htable : Stable table) (hls : Lexed 0 ls) :
    Stable table' ∧ ∀ before, (∀ t, MayNegate t before ls) →
      Throughout (PlacedBy Stable) before ls rest := by
  induction hrun with
  | done => exact ⟨htable, fun _ _ => .refl⟩
  | @blank _ _ l ls _ _ _ newline _ ih =>
    have hheadings := headings_subset_of_suffix (List.suffix_cons l ls)
    obtain ⟨hend, hplaced⟩ := ih (fun p hp => hstable p (hheadings hp)) htable
      ((Crosses.cons newline (by decide) ls).lexed hls)
    refine ⟨hend, fun before _ => Throughout.next (.cons newline rfl) (hplaced _ fun t m _ _ => ?_)⟩
    exact unjoined_of_kind (by rw [newline]; rfl) m
  | @expression t _ ls mid rest node _ _ first _ ih =>
    have hmid := (first.crosses (List.Subset.refl _) hls).lexed hls
    have hfirst := first.placed (List.Subset.refl _) hls
    have hnext := first.mayNegate
    obtain ⟨used, rfl, -⟩ := first.exists_used
    have hheadings := headings_subset_of_suffix (List.suffix_append used mid)
    obtain ⟨hend, hplaced⟩ := ih (fun p hp => hstable p (hheadings hp)) htable hmid
    refine ⟨hend, fun before hopened => ?_⟩
    have hexpression : Throughout (PlacedBy Stable) before (used ++ mid) mid :=
      (hfirst before (hopened t)).mono fun _ _ _ h => ⟨t, htable, h⟩
    exact hexpression.trans (hplaced _ fun t => hnext t _)
  | @definition t t₁ _ e ls inner mid rest _ _ p _ _ _ _ opening body closing
      complete_eq _ ihBody ih =>
    have hinner := (suffix_of_headerLine opening).1
    have hmid := ((List.suffix_cons _ _).trans body.suffix).trans hinner
    have hheading := mem_headings_of_headerLine List.suffix_rfl opening
    have hlexed := (crosses_headerLine opening).lexed hls
    have hlexedMid :=
      (Crosses.cons closing (by decide) mid).lexed ((body.crosses hlexed).lexed hlexed)
    obtain ⟨hclosed, hbody⟩ := ihBody (fun p hp => hstable p (headings_subset_of_suffix hinner hp))
      (hstable _ hheading t _ rfl rfl htable) hlexed
    have hdefined : Stable (t₁.define p) := by
      refine hstable _ hheading t₁ p ?_ ?_ hclosed <;> rw [complete_eq] <;> rfl
    obtain ⟨hend, hothers⟩ :=
      ih (fun p hp => hstable p (headings_subset_of_suffix hmid hp)) hdefined hlexedMid
    refine ⟨hend, fun before _ => ?_⟩
    obtain ⟨o, name, params, newline, rfl, hto, hname, hparams, hnewline, -, -⟩ :=
      headerLine_eq_ok_iff.1 opening
    obtain ⟨used, rfl⟩ := body.suffix
    -- Neither the header nor the word at the end holds an operator, and no operand ends with them.
    have hparams' : ∀ m ∈ params, isOperator m.kind = false := fun m hm => by rw [hparams m hm]; rfl
    refine Throughout.next (.cons hto rfl)
      (.next (.cons hname rfl) ((Throughout.of_forall_ne hparams').trans
      (.next (.cons hnewline rfl) ((hbody _ fun t m _ _ => ?_).trans
        (.next (.cons closing rfl) (hothers _ fun t m _ _ => ?_))))))
    · exact unjoined_of_kind (by rw [hnewline]; rfl) m
    · exact unjoined_of_kind (by rw [closing]; rfl) m

/-- The names of the table take as many inputs as in the other one, or as a header with the name
says. -/
def ArityFrom (entered : ProcedureTable) (headers : List Procedure) (t : ProcedureTable) : Prop :=
  ∀ name, t.arity? name = entered.arity? name ∨
    ∃ header ∈ headers, header.key = Text.toLower name ∧ t.arity? name = some header.arity

theorem ArityFrom.define {entered : ProcedureTable} {headers : List Procedure}
    {header p : Procedure} (hheader : header ∈ headers) (hkey : p.key = header.key)
    (hparams : p.params = header.params) (h : ArityFrom entered headers t) :
    ArityFrom entered headers (t.define p) := by
  intro name
  by_cases hname : Text.toLower name = p.key
  · refine .inr ⟨header, hheader, (hname.trans hkey).symm, ?_⟩
    have hlookup : (t.define p).lookup? name = some p :=
      ProcedureTable.lookup?_define.trans (if_pos hname)
    rw [ProcedureTable.arity?, hlookup, Option.map_some, Procedure.arity, hparams]
    rfl
  · have hlookup : (t.define p).lookup? name = t.lookup? name :=
      ProcedureTable.lookup?_define.trans (if_neg hname)
    have harity : (t.define p).arity? name = t.arity? name :=
      congrArg (Option.map Procedure.arity) hlookup
    rw [harity]
    exact h name

section Read

variable {entered : ProcedureTable} {text : String}
  (hrun : Run entered (Lexeme.ofText text) steps log table' rest) (heof : (ahead rest).kind = .eof)

include hrun heof

/-- The lexemes of a program that is read are readable and nested, up to the closing one. -/
theorem Run.exists_nested :
    ∃ used closing, Lexeme.ofText text = used ++ [closing] ∧ closing.kind = .eof ∧
    rest = [closing] ∧ depthBehind 0 used = 0 ∧ (∀ l ∈ used, isReadable l.kind = true) ∧
    (used.map Lexeme.kind).foldlM dueAfter [] = some [] := by
  obtain ⟨closing, rfl, hclosing, htext, hdepth⟩ := hrun.exists_eof heof
  obtain ⟨read, hread, -, hreadable⟩ := (hrun.crosses (lexed_ofText text)).depth
  obtain ⟨used, hused, hnested⟩ := hrun.nests (lexed_ofText text)
  cases List.append_cancel_right (htext.symm.trans hread)
  cases List.append_cancel_right (htext.symm.trans hused)
  exact ⟨_, closing, htext, hclosing, rfl, hdepth, hreadable, hnested []⟩

theorem Run.kind_ne_stray : ∀ l ∈ Lexeme.ofText text, l.kind ≠ .stray := by
  obtain ⟨used, closing, htext, hclosing, -, -, hreadable, -⟩ := hrun.exists_nested heof
  rw [htext]
  intro l hl hstray
  rcases List.mem_append.1 hl with hl | hl
  · have hkind := hreadable l hl
    rw [hstray] at hkind
    cases hkind
  · rw [List.mem_singleton.1 hl, hclosing] at hstray
    cases hstray

theorem Run.wellNested : WellNested ((Lexeme.ofText text).map Lexeme.kind) := by
  obtain ⟨used, closing, htext, hclosing, -, -, -, hnested⟩ := hrun.exists_nested heof
  rw [WellNested, htext, List.map_append, List.foldlM_append, hnested, List.map_singleton, hclosing]
  rfl

theorem Run.isListed_of_count {before after : List Lexeme} {l : Lexeme}
    (hsplit : Lexeme.ofText text = before ++ l :: after)
    (hopen : (before.map Lexeme.kind).count .rightBracket <
        (before.map Lexeme.kind).count .leftBracket) :
    isListed l.kind = true := by
  obtain ⟨used, closing, htext, -, -, hdepth, -, -⟩ := hrun.exists_nested heof
  have hlexed := lexed_ofText text
  rw [hsplit] at hlexed
  refine (hlexed.isListed_of_count hopen).resolve_left fun hkind => ?_
  -- The brackets are closed before the closing lexeme.
  have hafter : after = [] := hlexed.append.eq_nil hkind
  rw [hafter] at hsplit
  rw [List.append_inj_left' (hsplit.symm.trans htext) rfl] at hopen
  have hcount := count_le_depthBehind 0 used
  omega

theorem Run.exists_placed {before after : List Lexeme} {l : Lexeme}
    (hsplit : Lexeme.ofText text = before ++ l :: after) (hoperator : isOperator l.kind = true) :
    ∃ t, ArityFrom entered (headings (Lexeme.ofText text)) t ∧ Placed t before l after := by
  obtain ⟨used, closing, htext, hclosing, rfl, -⟩ := hrun.exists_nested heof
  have hplaced := (hrun.placed (ArityFrom entered (headings (Lexeme.ofText text)))
    (fun _ hheading _ _ hkey hparams ht => ht.define hheading hkey hparams) (fun _ => .inl rfl)
    (lexed_ofText text)).2 [] fun t m _ _ => unjoined_nil m
  refine hplaced before l after hsplit ?_ hoperator
  -- The closing lexeme is no operator, so it comes later.
  rcases List.eq_nil_or_concat after with rfl | ⟨back, last, rfl⟩
  · rw [List.singleton_inj.1 (List.append_inj_right' (hsplit.symm.trans htext) rfl),
      hclosing] at hoperator
    cases hoperator
  · rw [List.concat_eq_append, ← List.cons_append, ← List.append_assoc] at hsplit
    rw [List.concat_eq_append, List.append_inj_right' (hsplit.symm.trans htext) rfl]
    exact List.suffix_append _ _

end Read

/-- A program that is read has no stray tokens, its delimiters are well nested, brackets hold
nothing but words and brackets, and every operator stands between two complete operands or is the
minus of a negative number. -/
theorem balanced_of_readText {keep : Bool} {text : String}
    (hread : readText keep table text = (.ok nodes, table')) :
    (∀ t ∈ tokenize text true, t.kind ≠ .stray) ∧
    WellNested ((tokenize text true).map (·.kind)) ∧
    (∀ before t after, tokenize text true = before ++ t :: after →
      (before.map (·.kind)).count .rightBracket < (before.map (·.kind)).count .leftBracket →
      isListed t.kind = true) ∧
    ∃ entered, Entered table (Lexeme.ofText text) entered ∧
      ∀ before l after, Lexeme.ofText text = before ++ l :: after → isOperator l.kind = true →
        ∃ t, ArityFrom entered (headings (Lexeme.ofText text)) t ∧ Placed t before l after := by
  obtain ⟨entered, steps, log, rest, hentered, hrun, heof, rfl⟩ := program_eq_ok_iff.1 hread
  have htokens : (Lexeme.ofText text).map (·.token) = tokenize text true :=
    Lexeme.map_token_ofTokensAfter none _
  rw [← htokens]
  refine ⟨?_, ?_, ?_, entered, hentered, fun before l after => hrun.exists_placed heof⟩
  · intro t ht
    obtain ⟨l, hl, rfl⟩ := List.mem_map.1 ht
    exact hrun.kind_ne_stray heof l hl
  · rw [List.map_map]
    exact hrun.wellNested heof
  · intro before t after hsplit hopen
    obtain ⟨front, back, hlexemes, rfl, hback⟩ := List.map_eq_append_iff.1 hsplit
    obtain ⟨l, others, rfl, rfl, -⟩ := List.map_eq_cons_iff.1 hback
    rw [List.map_map] at hopen
    exact hrun.isListed_of_count heof hlexemes hopen

/-- Signs, differences and a product of calls with and without parentheses, and lists in a list. -/
def joinedText : String :=
  "to g :x\nend\nto f :x\n(g :x - 1\n- 2 -3) * 3\nend\nf 2 - - 4\nf [a [b] - (c]\n"

theorem balanced_of_readText_joined :
    ∃ nodes table', readText false .empty joinedText = (.ok nodes, table') ∧
      ((tokenize joinedText true).filter fun t => isOperator t.kind).length = 6 ∧
      WellNested ((tokenize joinedText true).map (·.kind)) ∧
      ∃ entered, ∀ before l after, Lexeme.ofText joinedText = before ++ l :: after →
      isOperator l.kind = true →
        ∃ t, ArityFrom entered (headings (Lexeme.ofText joinedText)) t ∧
        Placed t before l after := by
  have hok : (readText false .empty joinedText).1.isOk = true := by
    rw [readText, Lexeme.ofText_eq]
    decide +kernel
  have hcount : ((tokenize joinedText true).filter fun t => isOperator t.kind).length = 6 := by
    rw [tokenize, scan_eq_scanUpTo (Nat.le_refl _)]
    decide +kernel
  obtain ⟨nodes, table', hread⟩ := exists_of_isOk hok
  obtain ⟨-, hnested, -, entered, -, hplaced⟩ := balanced_of_readText hread
  exact ⟨nodes, table', hread, hcount, hnested, entered, hplaced⟩

end Logo.Reader
