import Logo.Reader.Expression

/-!
# The grammar of expressions

`Reads table phrase ls nodes rest` says that a part of an expression stands at the front of the
lexemes `ls`, that it has the given nodes, and that `rest` is left behind it.  It has one rule for
each way in which the readers go on, and no bound on the depth of nesting.

With a bound of as many levels as there are lexemes, the readers find just what the grammar says
(`obeys_expression`, `Reads.expression_eq`): every phrase takes at least one lexeme for each level
that it opens, so the bound is never met.
-/

namespace Logo.Reader

/-- The levels of precedence, the loosest first. -/
def precedence : List Operators :=
  [equality, comparison, additive, multiplicative]

/-- The parts of an expression. -/
inductive Phrase where
  /-- Operands joined by the operators of the levels; without levels, a primary expression. -/
  | operand (levels : List Operators)
  /-- What follows a first operand `left`, on the loosest of the levels. -/
  | chain (operators : Operators) (levels : List Operators) (left : Node)
  /-- A number of inputs. -/
  | inputs (count : Nat)
  /-- Inputs up to a closing parenthesis. -/
  | inputsToParen

/-- The node of a word that has one whatever the procedure table holds. -/
def literal? (l : Lexeme) : Option Node :=
  match l.kind with
  | .trueWord => some (.boolean true)
  | .falseWord => some (.boolean false)
  | .nilWord => some .nil
  | .number => (number l.token l.token.text).toOption
  | .quote => some (.quoted l.token.unmarked)
  | .reference => some (.reference l.token.unmarked)
  | _ => none

/-- The number of inputs of the procedure named ahead, if a name stands there. -/
def callee? (table : ProcedureTable) (ls : List Lexeme) : Option Nat :=
  if (ahead ls).kind = .symbol then table.arity? (ahead ls).text else none

/-- The phrase stands at the front of the lexemes, with the nodes, before the rest. -/
inductive Reads (table : ProcedureTable) : Phrase → List Lexeme → List Node → List Lexeme → Prop
  | literal {l : Lexeme} {ls : List Lexeme} {node : Node} (word : literal? l = some node) :
      Reads table (.operand []) (l :: ls) [node] ls
  | signed {l m : Lexeme} {ls : List Lexeme} {node : Node} (minus : l.kind = .minus)
      (digits : m.kind = .number) (value : number m.token ("-" ++ m.token.text) = .ok node) :
      Reads table (.operand []) (l :: m :: ls) [node] ls
  | list {l : Lexeme} {ls rest : List Lexeme} {node : Node} (bracket : l.kind = .leftBracket)
      (items : listItems [] [] ls = .ok (node, rest)) :
      Reads table (.operand []) (l :: ls) [node] rest
  | symbol {l : Lexeme} {ls : List Lexeme} (name : l.kind = .symbol)
      (undefined : table.arity? l.token.text = none) :
      Reads table (.operand []) (l :: ls) [.symbol l.token.text] ls
  | call {l : Lexeme} {ls rest : List Lexeme} {arity : Nat} {inputs : List Node}
      (name : l.kind = .symbol) (defined : table.arity? l.token.text = some arity)
      (inputs_read : Reads table (.inputs arity) ls inputs rest) :
      Reads table (.operand []) (l :: ls) [.plainCall l.token.text arity inputs] rest
  | parenCall {l m r : Lexeme} {ls rest : List Lexeme} {arity : Nat} {inputs : List Node}
      (left : l.kind = .leftParen) (name : m.kind = .symbol)
      (defined : table.arity? m.token.text = some arity)
      (inputs_read : Reads table .inputsToParen ls inputs (r :: rest))
      (right : r.kind = .rightParen) :
      Reads table (.operand []) (l :: m :: ls) [.parenCall m.token.text arity inputs] rest
  | group {l r : Lexeme} {ls rest : List Lexeme} {node : Node} (left : l.kind = .leftParen)
      (no_callee : callee? table ls = none)
      (inner : Reads table (.operand precedence) ls [node] (r :: rest))
      (right : r.kind = .rightParen) : Reads table (.operand []) (l :: ls) [node] rest
  | level {operators : Operators} {levels : List Operators} {ls mid rest : List Lexeme}
      {left node : Node} (first : Reads table (.operand levels) ls [left] mid)
      (others : Reads table (.chain operators levels left) mid [node] rest) :
      Reads table (.operand (operators :: levels)) ls [node] rest
  | chainEnd {operators : Operators} {levels : List Operators} {ls : List Lexeme} {left : Node}
      (no_operator : operator? operators ls = none) :
      Reads table (.chain operators levels left) ls [left] ls
  | chainStep {operators : Operators} {levels : List Operators} {l : Lexeme}
      {ls mid rest : List Lexeme} {left right node : Node} {name : String}
      (operator : operator? operators (l :: ls) = some name)
      (next : Reads table (.operand levels) ls [right] mid)
      (others :
        Reads table (.chain operators levels (.plainCall name 2 [left, right])) mid [node] rest) :
      Reads table (.chain operators levels left) (l :: ls) [node] rest
  | noInput {ls : List Lexeme} : Reads table (.inputs 0) ls [] ls
  | input {count : Nat} {ls mid rest : List Lexeme} {node : Node} {nodes : List Node}
      (first : Reads table (.operand precedence) ls [node] mid)
      (others : Reads table (.inputs count) mid nodes rest) :
      Reads table (.inputs (count + 1)) ls (node :: nodes) rest
  | parenEnd {r : Lexeme} {ls : List Lexeme} (right : r.kind = .rightParen) :
      Reads table .inputsToParen (r :: ls) [] (r :: ls)
  | parenLine {l : Lexeme} {ls rest : List Lexeme} {nodes : List Node} (newline : l.kind = .newline)
      (others : Reads table .inputsToParen ls nodes rest) :
      Reads table .inputsToParen (l :: ls) nodes rest
  | parenInput {ls mid rest : List Lexeme} {node : Node} {nodes : List Node}
      (first : Reads table (.operand precedence) ls [node] mid)
      (others : Reads table .inputsToParen mid nodes rest) :
      Reads table .inputsToParen ls (node :: nodes) rest

/-- The lexemes taken by an operand are at least one. -/
def Phrase.takesSome : Phrase → Bool
  | .operand _ => true
  | _ => false

/-- The procedures that operators call. -/
def infixNames : List String :=
  ["equal?", "notequal?", "less?", "greater?", "lessequal?", "greaterequal?", "add", "sub", "mul",
    "div"]

/-- The kinds of the operators. -/
def isOperator : TokenClass → Bool
  | .equal | .equalEqual | .bangEqual | .less | .greater | .lessEqual | .greaterEqual
  | .plus | .minus | .star | .slash => true
  | _ => false

/-- The levels of a phrase, with that of the operators before the next operand. -/
def Phrase.levels : Phrase → List Operators
  | .operand levels => levels
  | .chain operators levels _ => operators :: levels
  | _ => []

variable {table : ProcedureTable} {phrase : Phrase} {levels : List Operators}
  {operators : Operators} {ls rest : List Lexeme} {node left : Node} {nodes : List Node}
  {n bound : Nat}

theorem infix_of_operator? {l : Lexeme} {name : String} (h : operators ∈ precedence)
    (hname : operator? operators (l :: ls) = some name) :
    isOperator l.kind = true ∧ name ∈ infixNames := by
  rw [operator?] at hname
  split at hname
  · cases hname
  · simp only [precedence, List.mem_cons, List.not_mem_nil, or_false] at h
    generalize l.kind = kind at hname
    rcases h with rfl | rfl | rfl | rfl <;> cases kind <;> cases hname <;> decide

/-! ## What is taken -/

theorem listItems_suffix {outer : List (List Node)} {items : List Node}
    (h : listItems outer items ls = .ok (node, rest)) : rest <:+ ls := by
  induction ls generalizing outer items with
  | nil => cases h
  | cons l ls ih =>
    have hls : ls <:+ l :: ls := List.suffix_cons l ls
    simp only [listItems] at h
    cases hkind : l.kind with
    | rightBracket =>
      rw [hkind] at h
      cases outer with
      | nil =>
        cases h
        exact hls
      | cons around outer => exact (ih h).trans hls
    | eof =>
      rw [hkind] at h
      cases h
    | _ =>
      rw [hkind] at h
      exact (ih h).trans hls

/-- A phrase is taken from the front. -/
theorem Reads.exists_used (h : Reads table phrase ls nodes rest) :
    ∃ used, ls = used ++ rest ∧ (phrase.takesSome = true → used ≠ []) := by
  induction h with
  | literal => exact ⟨[_], rfl, fun _ => List.cons_ne_nil _ _⟩
  | signed => exact ⟨[_, _], rfl, fun _ => List.cons_ne_nil _ _⟩
  | list _ items =>
    obtain ⟨used, rfl⟩ := listItems_suffix items
    exact ⟨_ :: used, rfl, fun _ => List.cons_ne_nil _ _⟩
  | symbol => exact ⟨[_], rfl, fun _ => List.cons_ne_nil _ _⟩
  | call _ _ _ ih =>
    obtain ⟨used, rfl, -⟩ := ih
    exact ⟨_ :: used, rfl, fun _ => List.cons_ne_nil _ _⟩
  | @parenCall l m r _ _ _ _ _ _ _ _ _ ih =>
    obtain ⟨used, rfl, -⟩ := ih
    exact ⟨l :: m :: used ++ [r], by simp, fun _ => List.cons_ne_nil _ _⟩
  | @group l r _ _ _ _ _ _ _ ih =>
    obtain ⟨used, rfl, -⟩ := ih
    exact ⟨l :: used ++ [r], by simp, fun _ => List.cons_ne_nil _ _⟩
  | level _ _ ihFirst ihOthers =>
    obtain ⟨used, rfl, hused⟩ := ihFirst
    obtain ⟨more, rfl, -⟩ := ihOthers
    exact ⟨used ++ more, by simp, fun _ => List.append_ne_nil_of_left_ne_nil (hused rfl) _⟩
  | chainEnd => exact ⟨[], rfl, nofun⟩
  | @chainStep _ _ l _ _ _ _ _ _ _ _ _ _ ihNext ihOthers =>
    obtain ⟨used, rfl, -⟩ := ihNext
    obtain ⟨more, rfl, -⟩ := ihOthers
    exact ⟨l :: (used ++ more), by simp, nofun⟩
  | noInput => exact ⟨[], rfl, nofun⟩
  | input _ _ ihFirst ihOthers =>
    obtain ⟨used, rfl, -⟩ := ihFirst
    obtain ⟨more, rfl, -⟩ := ihOthers
    exact ⟨used ++ more, by simp, nofun⟩
  | parenEnd => exact ⟨[], rfl, nofun⟩
  | parenLine _ _ ih =>
    obtain ⟨used, rfl, -⟩ := ih
    exact ⟨_ :: used, rfl, nofun⟩
  | parenInput _ _ ihFirst ihOthers =>
    obtain ⟨used, rfl, -⟩ := ihFirst
    obtain ⟨more, rfl, -⟩ := ihOthers
    exact ⟨used ++ more, by simp, nofun⟩

theorem Reads.length_le (h : Reads table phrase ls nodes rest) : rest.length ≤ ls.length := by
  obtain ⟨used, rfl, -⟩ := h.exists_used
  rw [List.length_append]
  exact Nat.le_add_left _ _

/-- An operand takes one lexeme at least, which is why reading ends. -/
theorem Reads.length_lt (h : Reads table (.operand levels) ls nodes rest) :
    rest.length < ls.length := by
  obtain ⟨used, rfl, hused⟩ := h.exists_used
  have hpos := List.length_pos_iff.2 (hused rfl)
  rw [List.length_append]
  omega

/-- The kinds of lexemes that operands start with. -/
def opensOperand : TokenClass → Bool
  | .trueWord | .falseWord | .nilWord | .number | .minus | .quote | .reference | .symbol
  | .leftBracket | .leftParen => true
  | _ => false

theorem opensOperand_of_literal? {l : Lexeme} (h : literal? l = some node) :
    opensOperand l.kind = true := by
  rw [literal?] at h
  cases hkind : l.kind with
  | trueWord | falseWord | nilWord | number | quote | reference => rfl
  | _ => simp [hkind] at h

/-- A phrase that takes a lexeme starts with one that opens operands. -/
theorem Reads.exists_opening (h : Reads table phrase ls nodes rest) :
    phrase.takesSome = true → ∃ l more, ls = l :: more ∧ opensOperand l.kind = true := by
  induction h with
  | literal word => exact fun _ => ⟨_, _, rfl, opensOperand_of_literal? word⟩
  | signed hl | list hl | symbol hl | call hl | parenCall hl | group hl =>
    exact fun _ => ⟨_, _, rfl, by rw [hl]; rfl⟩
  | level _ _ ih => exact ih
  | _ => exact nofun

/-! ## From the readers to the grammar -/

/-- A sequence of readers succeeds if the second one does on what the first one leaves. -/
theorem bind_eq_ok_iff {α β : Type} {x : Except ParseError α} {f : α → Except ParseError β}
    {b : β} : (x >>= f) = .ok b ↔ ∃ a, x = .ok a ∧ f a = .ok b := by
  cases x with
  | error e => exact ⟨nofun, nofun⟩
  | ok a => exact ⟨fun h => ⟨a, rfl, h⟩, fun ⟨_, ha, h⟩ => Except.ok.inj ha ▸ h⟩

theorem expect_cons {kind : TokenClass} {l : Lexeme} (h : l.kind = kind) (ls : List Lexeme) :
    expect kind (l :: ls) = .ok (l.token, ls) :=
  if_pos h

theorem exists_of_expect {kind : TokenClass} (hkind : kind ≠ .eof) {token : Token}
    (h : expect kind ls = .ok (token, rest)) :
    ∃ l, ls = l :: rest ∧ l.kind = kind ∧ token = l.token := by
  cases ls with
  | nil =>
    have hnot : (ahead []).kind ≠ kind := Ne.symm hkind
    rw [expect, if_neg hnot] at h
    cases h
  | cons l ls =>
    by_cases hl : l.kind = kind
    · rw [expect_cons hl] at h
      cases h
      exact ⟨l, rfl, hl, rfl⟩
    · have hnot : (ahead (l :: ls)).kind ≠ kind := hl
      rw [expect, if_neg hnot] at h
      cases h

/-- What the reader takes from at most `bound` lexemes is an operand of the grammar. -/
def Obeys (table : ProcedureTable) (levels : List Operators) (bound : Nat) (p : Parse Node) :
    Prop :=
  ∀ ls node rest, ls.length ≤ bound → p ls = .ok (node, rest) →
    Reads table (.operand levels) ls [node] rest

section Inner

variable {inner : Parse Node} (hinner : Obeys table precedence bound inner)

include hinner

/-- Inputs that are read one after the other are inputs of the grammar. -/
theorem reads_of_times (hlength : ls.length ≤ bound) (h : times inner n ls = .ok (nodes, rest)) :
    Reads table (.inputs n) ls nodes rest := by
  induction n generalizing ls nodes with
  | zero =>
    cases h
    exact .noInput
  | succ n ih =>
    obtain ⟨⟨node, mid⟩, hfirst, h⟩ := bind_eq_ok_iff.1 h
    obtain ⟨⟨others, rest⟩, hothers, h⟩ := bind_eq_ok_iff.1 h
    cases h
    have hreads := hinner _ _ _ hlength hfirst
    exact .input hreads (ih (Nat.le_trans hreads.length_le hlength) hothers)

/-- Inputs up to a parenthesis are read to their end if there are no more lexemes than the reader
may look at. -/
theorem reads_of_inputsToParen {taken : List Node} {r : Lexeme} (hlength : ls.length ≤ bound)
    (hn : ls.length ≤ n) (hr : r.kind = .rightParen)
    (h : inputsToParen inner n taken ls = .ok (nodes, r :: rest)) :
    ∃ others, nodes = taken.reverse ++ others ∧
      Reads table .inputsToParen ls others (r :: rest) := by
  induction n generalizing ls taken with
  | zero =>
    rw [List.length_eq_zero_iff.1 (Nat.le_zero.1 hn)] at h
    cases h
  | succ n ih =>
    cases ls with
    | nil => cases h
    | cons l ls =>
      have hhead : (ahead (l :: ls)).kind = l.kind := rfl
      have hls : ls.length ≤ n := Nat.le_of_succ_le_succ hn
      simp only [inputsToParen, hhead, List.tail_cons] at h
      split at h
      · next hkind =>
        obtain ⟨others, rfl, hothers⟩ := ih (Nat.le_of_succ_le hlength) hls h
        exact ⟨others, rfl, .parenLine hkind hothers⟩
      · cases h
        exact ⟨[], (List.append_nil _).symm, .parenEnd hr⟩
      · next hkind =>
        cases h
        rw [hr] at hkind
        cases hkind
      · obtain ⟨⟨node, mid⟩, hfirst, h⟩ := bind_eq_ok_iff.1 h
        have hreads := hinner _ _ _ hlength hfirst
        have hmid : mid.length ≤ ls.length := Nat.le_of_lt_succ hreads.length_lt
        have hbound : mid.length ≤ bound := Nat.le_trans hreads.length_le hlength
        obtain ⟨others, rfl, hothers⟩ := ih hbound (Nat.le_trans hmid hls) h
        exact ⟨node :: others, by simp, .parenInput hreads hothers⟩

/-- What is read from a parenthesis on is an operand of the grammar. -/
theorem reads_of_parenthesis {l : Lexeme} (hl : l.kind = .leftParen) (hlength : ls.length ≤ bound)
    (h : parenthesis table bound inner ls = .ok (node, rest)) :
    Reads table (.operand []) (l :: ls) [node] rest := by
  have hcallee : callee? table ls =
      if (ahead ls).kind = .symbol then table.arity? (ahead ls).text else none := rfl
  simp only [parenthesis] at h
  split at h
  · next arity harity =>
    obtain ⟨⟨inputs, mid⟩, hinputs, h⟩ := bind_eq_ok_iff.1 h
    obtain ⟨⟨token, rest⟩, hparen, h⟩ := bind_eq_ok_iff.1 h
    cases h
    obtain ⟨r, rfl, hr, rfl⟩ := exists_of_expect (by decide) hparen
    split at harity
    · next hsymbol =>
      cases ls with
      | nil => cases hsymbol
      | cons m ls =>
        rw [List.length_cons] at hlength
        obtain ⟨others, rfl, hreads⟩ :=
          reads_of_inputsToParen hinner (Nat.le_of_succ_le hlength)
            (Nat.le_of_succ_le hlength) hr hinputs
        exact .parenCall hl hsymbol harity hreads hr
    · cases harity
  · next hnone =>
    obtain ⟨⟨inside, mid⟩, hinside, h⟩ := bind_eq_ok_iff.1 h
    obtain ⟨⟨token, rest⟩, hparen, h⟩ := bind_eq_ok_iff.1 h
    cases h
    obtain ⟨r, rfl, hr, rfl⟩ := exists_of_expect (by decide) hparen
    exact .group hl (hcallee.trans hnone) (hinner _ _ _ hlength hinside) hr

/-- What is read as a primary expression is one, by the class of the lexeme ahead. -/
theorem obeys_primary : Obeys table [] (bound + 1) (primary table bound inner) := by
  intro ls node rest hlength h
  cases ls with
  | nil => cases h
  | cons l ls =>
    rw [List.length_cons] at hlength
    have hls : ls.length ≤ bound := Nat.le_of_succ_le_succ hlength
    have hword : ∀ {value}, literal? l = some value →
        Except.ok (ε := ParseError) (value, ls) = .ok (node, rest) →
        Reads table (.operand []) (l :: ls) [node] rest := by
      rintro value hvalue ⟨⟩
      exact .literal hvalue
    rw [primary] at h
    split at h
    · next hkind => exact hword (by simp only [literal?, hkind]) h
    · next hkind => exact hword (by simp only [literal?, hkind]) h
    · next hkind => exact hword (by simp only [literal?, hkind]) h
    · next hkind =>
      obtain ⟨value, hvalue, h⟩ := bind_eq_ok_iff.1 h
      exact hword (by simp only [literal?, hkind, hvalue, Except.toOption]) h
    · next hkind =>
      obtain ⟨⟨token, mid⟩, hdigits, h⟩ := bind_eq_ok_iff.1 h
      obtain ⟨value, hvalue, h⟩ := bind_eq_ok_iff.1 h
      cases h
      obtain ⟨m, rfl, hm, rfl⟩ := exists_of_expect (by decide) hdigits
      exact .signed hkind hm hvalue
    · next hkind => exact hword (by simp only [literal?, hkind]) h
    · next hkind => exact hword (by simp only [literal?, hkind]) h
    · next hkind =>
      split at h
      · next arity harity =>
        obtain ⟨⟨inputs, mid⟩, hinputs, h⟩ := bind_eq_ok_iff.1 h
        cases h
        exact .call hkind harity (reads_of_times hinner hls hinputs)
      · next hnone =>
        cases h
        exact .symbol hkind hnone
    · next hkind => exact .list hkind h
    · next hkind => exact reads_of_parenthesis hinner hkind hls h
    · cases h

end Inner

section Levels

variable {operand : Parse Node} (hoperand : Obeys table levels bound operand)

include hoperand

/-- What is read as a chain is one, by induction on the operators that may follow. -/
theorem reads_of_chain (hlength : ls.length ≤ bound) (hn : ls.length ≤ n)
    (h : chain operators operand n left ls = .ok (node, rest)) :
    Reads table (.chain operators levels left) ls [node] rest := by
  induction n generalizing ls left with
  | zero =>
    rw [List.length_eq_zero_iff.1 (Nat.le_zero.1 hn)] at h ⊢
    cases h
    exact .chainEnd rfl
  | succ n ih =>
    simp only [chain] at h
    split at h
    · next hnone =>
      cases h
      exact .chainEnd hnone
    · next name hname =>
      cases ls with
      | nil => cases hname
      | cons l ls =>
        obtain ⟨⟨right, mid⟩, hright, h⟩ := bind_eq_ok_iff.1 h
        have hls : ls.length ≤ bound := Nat.le_of_succ_le hlength
        have hreads := hoperand _ _ _ hls hright
        have hmid : mid.length ≤ ls.length := hreads.length_le
        have hmid' : mid.length ≤ n := Nat.le_trans hmid (Nat.le_of_succ_le_succ hn)
        exact .chainStep hname hreads (ih (Nat.le_trans hmid hls) hmid' h)

end Levels

/-- A level of operators obeys the grammar if the level below does. -/
theorem obeys_binary {operand : Parse Node} (hoperand : Obeys table levels (bound + 1) operand) :
    Obeys table (operators :: levels) (bound + 1) (binary bound operators operand) := by
  intro ls node rest hlength h
  obtain ⟨⟨first, mid⟩, hfirst, h⟩ := bind_eq_ok_iff.1 h
  have hreads := hoperand _ _ _ hlength hfirst
  have hmid := hreads.length_lt
  exact .level hreads (reads_of_chain hoperand (by omega) (by omega) h)

/-- What is read as an expression is one. -/
theorem obeys_expression (table : ProcedureTable) (bound : Nat) :
    Obeys table precedence bound (expression table bound) := by
  induction bound with
  | zero =>
    intro ls node rest _ h
    cases h
  | succ bound ih =>
    exact obeys_binary (obeys_binary (obeys_binary (obeys_binary (obeys_primary ih))))

/-! ## From the grammar to the readers -/

/-- The reader of operands with the given levels. -/
def operandReader (table : ProcedureTable) (bound : Nat) (levels : List Operators) : Parse Node :=
  levels.foldr (binary bound) (primary table bound (expression table bound))

theorem operandReader_nil (table : ProcedureTable) (bound : Nat) :
    operandReader table bound [] = primary table bound (expression table bound) := rfl

theorem operandReader_cons (table : ProcedureTable) (bound : Nat) (operators : Operators)
    (levels : List Operators) :
    operandReader table bound (operators :: levels) =
      binary bound operators (operandReader table bound levels) := rfl

theorem expression_succ (table : ProcedureTable) (bound : Nat) :
    expression table (bound + 1) = operandReader table bound precedence := rfl

/-- The reader of a phrase finds it. -/
def Phrase.Found (table : ProcedureTable) (ls : List Lexeme) (nodes : List Node)
    (rest : List Lexeme) : Phrase → Prop
  | .operand levels => ∀ node bound, nodes = [node] → ls.length ≤ bound + 1 →
      operandReader table bound levels ls = .ok (node, rest)
  | .chain operators levels left => ∀ node bound n, nodes = [node] →
      ls.length ≤ bound → ls.length ≤ n →
      Reader.chain operators (operandReader table bound levels) n left ls = .ok (node, rest)
  | .inputs count => ∀ bound, ls.length ≤ bound →
      times (expression table bound) count ls = .ok (nodes, rest)
  | .inputsToParen => ∀ bound n taken, ls.length ≤ bound → ls.length ≤ n →
      Reader.inputsToParen (expression table bound) n taken ls = .ok (taken.reverse ++ nodes, rest)

theorem primary_of_literal? {l : Lexeme} (h : literal? l = some node) (inner : Parse Node)
    (ls : List Lexeme) : primary table bound inner (l :: ls) = .ok (node, ls) := by
  rw [literal?] at h
  simp only [primary]
  cases hkind : l.kind with
  | trueWord | falseWord | nilWord | quote | reference =>
    simp only [hkind, Option.some.injEq] at h
    rw [h]
  | number =>
    simp only [hkind] at h
    cases hvalue : number l.token l.token.text with
    | error e =>
      rw [hvalue] at h
      cases h
    | ok value =>
      rw [hvalue] at h
      cases h
      rfl
  | _ => simp [hkind] at h

/-- The readers find every phrase, given a bound. -/
theorem Reads.found (h : Reads table phrase ls nodes rest) : phrase.Found table ls nodes rest := by
  induction h with
  | literal word =>
    rintro _ bound ⟨⟩ -
    exact primary_of_literal? word _ _
  | signed minus digits value =>
    rintro _ bound ⟨⟩ -
    simp only [operandReader_nil, primary, minus, expect_cons digits, bind, Except.bind, value]
    rfl
  | list bracket items =>
    rintro _ bound ⟨⟩ -
    simp only [operandReader_nil, primary, bracket, items]
  | symbol name undefined =>
    rintro _ bound ⟨⟩ -
    simp only [operandReader_nil, primary, name, undefined]
  | call name defined _ ih =>
    rintro _ bound ⟨⟩ hlength
    simp only [operandReader_nil, primary, name, defined]
    rw [ih bound (Nat.le_of_succ_le_succ hlength)]
    rfl
  | @parenCall l m r ls rest arity inputs left name defined _ right ih =>
    rintro _ bound ⟨⟩ hlength
    have hbound : ls.length ≤ bound := by
      simp only [List.length_cons] at hlength
      omega
    have hinputs := ih bound bound [] hbound hbound
    have hhead : ahead (m :: ls) = m.token := rfl
    have hsymbol : m.token.kind = .symbol := name
    simp only [operandReader_nil, primary, left, parenthesis, hhead, hsymbol, if_true, defined,
      List.tail_cons, hinputs, bind, Except.bind, expect_cons right]
    rfl
  | @group l r ls rest node left no_callee inner right ih =>
    rintro _ bound ⟨⟩ hlength
    have hpos := inner.length_lt
    obtain ⟨bound, rfl⟩ : ∃ k, bound = k + 1 :=
      ⟨bound - 1, by simp only [List.length_cons] at *; omega⟩
    have hinner := ih _ bound rfl (Nat.le_of_succ_le_succ hlength)
    rw [callee?] at no_callee
    simp only [operandReader_nil, primary, left, parenthesis, no_callee, expression_succ, hinner,
      bind, Except.bind, expect_cons right]
    rfl
  | level first others ihFirst ihOthers =>
    rintro _ bound ⟨⟩ hlength
    have hmid := first.length_lt
    have hfirst := ihFirst _ bound rfl hlength
    have hothers := ihOthers _ bound bound rfl (by omega) (by omega)
    rw [operandReader_cons, binary, hfirst]
    exact hothers
  | chainEnd no_operator =>
    rintro _ bound n ⟨⟩ - -
    cases n with
    | zero => rfl
    | succ n => simp only [chain, no_operator]
  | @chainStep operators levels l ls mid rest left right node name operator next others
      ihNext ihOthers =>
    rintro _ bound n ⟨⟩ hlength hn
    have hmid : mid.length ≤ ls.length := next.length_le
    rw [List.length_cons] at hlength hn
    obtain ⟨n, rfl⟩ : ∃ k, n = k + 1 := ⟨n - 1, by omega⟩
    have hnext := ihNext _ bound rfl (by omega)
    have hothers := ihOthers _ bound n rfl (by omega) (by omega)
    simp only [chain, operator, List.tail_cons, hnext, bind, Except.bind]
    exact hothers
  | noInput => exact fun _ _ => rfl
  | @input count ls mid rest node nodes first others ihFirst ihOthers =>
    intro bound hlength
    have hmid := first.length_lt
    obtain ⟨bound, rfl⟩ : ∃ k, bound = k + 1 := ⟨bound - 1, by omega⟩
    have hfirst := ihFirst _ bound rfl hlength
    have hothers := ihOthers (bound + 1) (by omega)
    rw [expression_succ] at hothers ⊢
    simp only [times, hfirst, bind, Except.bind, hothers]
    rfl
  | @parenEnd r ls right =>
    intro bound n taken _ hn
    obtain ⟨n, rfl⟩ : ∃ k, n = k + 1 := ⟨n - 1, by rw [List.length_cons] at hn; omega⟩
    have hhead : (ahead (r :: ls)).kind = .rightParen := right
    simp only [inputsToParen, hhead, List.append_nil]
  | @parenLine l ls rest nodes newline others ih =>
    intro bound n taken hlength hn
    rw [List.length_cons] at hlength hn
    obtain ⟨n, rfl⟩ : ∃ k, n = k + 1 := ⟨n - 1, by omega⟩
    have hhead : (ahead (l :: ls)).kind = .newline := newline
    simp only [inputsToParen, hhead, List.tail_cons]
    exact ih bound n taken (by omega) (by omega)
  | @parenInput ls mid rest node nodes first others ihFirst ihOthers =>
    intro bound n taken hlength hn
    obtain ⟨l, more, rfl, hopens⟩ := first.exists_opening rfl
    have hmid := first.length_lt
    rw [List.length_cons] at hlength hn hmid
    obtain ⟨bound, rfl⟩ : ∃ k, bound = k + 1 := ⟨bound - 1, by omega⟩
    obtain ⟨n, rfl⟩ : ∃ k, n = k + 1 := ⟨n - 1, by omega⟩
    have hhead : (ahead (l :: more)).kind = l.kind := rfl
    have hfirst := ihFirst _ bound rfl hlength
    have hothers := ihOthers (bound + 1) n (node :: taken) (by omega) (by omega)
    rw [expression_succ] at hothers ⊢
    simp only [inputsToParen, hhead]
    -- None of the lexemes that end the inputs opens an operand.
    split
    · next h => simp [h, opensOperand] at hopens
    · next h => simp [h, opensOperand] at hopens
    · next h => simp [h, opensOperand] at hopens
    · simp only [hfirst, bind, Except.bind, hothers]
      simp

/-- An expression of the grammar is read as one. -/
theorem Reads.expression_eq (h : Reads table (.operand precedence) ls [node] rest)
    (hlength : ls.length ≤ bound) : expression table bound ls = .ok (node, rest) := by
  have hpos := h.length_lt
  obtain ⟨bound, rfl⟩ : ∃ k, bound = k + 1 := ⟨bound - 1, by omega⟩
  exact h.found node bound rfl hlength

end Logo.Reader
