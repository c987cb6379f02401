import Logo.Proofs.RawList
import Logo.Proofs.Words

/-!
# Canonical texts of expressions

The canonical text of an expression has one space between a name and its inputs and nothing to mark
where an input ends, other than the parentheses around a call that was written in them.  It is read
back as the expression (`canonical_text_read`): the procedure table says how many inputs to take,
and no operator is seen behind an input, because a minus before a number has a space on its other
side.

The proof gives every well-formed expression a spelling, one case for each way to build it.
-/

namespace Logo

open TokenRule Token Lexeme Reader

/-! ## Well-formed expressions -/

/-- The expressions that a program can write, given a procedure table. -/
inductive Node.WellFormed (table : ProcedureTable) : Node → Prop
  | integer (value : Int64) : WellFormed table (.integer value)
  | boolean (value : Bool) : WellFormed table (.boolean value)
  | nil : WellFormed table .nil
  | quoted {text : String} (solid : ∀ c ∈ text.toList, endsWord c = false) :
      WellFormed table (.quoted text)
  | reference {name : String} (ne_empty : name ≠ "")
      (solid : ∀ c ∈ name.toList, endsReference c = false) : WellFormed table (.reference name)
  | symbol {text : String} (token : IsToken .symbol text) (undefined : table.defines text = false)
      (not_alias : isAliasWord text = false) : WellFormed table (.symbol text)
  | list {items : List Node} (raw : (Node.list items).Raw) : WellFormed table (.list items)
  | plainCall {name : String} {arity : Nat} {inputs : List Node} (token : IsToken .symbol name)
      (lower : Text.toLower name = name) (not_alias : isAliasWord name = false)
      (arity_eq : table.arity? name = some arity) (length_eq : inputs.length = arity)
      (inputs_wellFormed : ∀ input ∈ inputs, WellFormed table input) :
      WellFormed table (.call name arity inputs false)
  | parenCall {name : String} {arity : Nat} {inputs : List Node} (token : IsToken .symbol name)
      (lower : Text.toLower name = name) (not_alias : isAliasWord name = false)
      (arity_eq : table.arity? name = some arity)
      (inputs_wellFormed : ∀ input ∈ inputs, WellFormed table input) :
      WellFormed table (.call name arity inputs true)

mutual

/-- The text of an expression with single spaces and no more parentheses than it was written with.
-/
def Node.canonical : Node → String
  | .call name _ inputs parenthesized =>
    inParens parenthesized (spaced (name :: canonicalEach inputs))
  | other => other.toSource

/-- The canonical texts of a sequence of expressions. -/
def Node.canonicalEach : List Node → List String
  | [] => []
  | n :: ns => n.canonical :: canonicalEach ns

end

/-! ## Inputs -/

/-- The text, a space before each input, writes the inputs with the lexemes. -/
structure InputSpelling (table : ProcedureTable) (text : List Char) (inputs : List Node)
    (ls : List Lexeme) : Prop where
  apart : ∀ c, text.head? = some c → endsWord c = true
  unbroken : '\n' ∉ text
  lexed : ∀ rest, (∀ c, rest.head? = some c → endsWord c = true) →
    ofPieces true (pieces 0 (text ++ rest)) = ls ++ ofPieces true (pieces 0 rest)
  quiet : Quiet ls
  length_le : inputs.length ≤ ls.length
  operatorFree : ∀ rest, OperatorFree rest → OperatorFree (ls ++ rest)
  times : ∀ bound rest, ls.length ≤ bound → OperatorFree rest →
    times (expression table bound) inputs.length (ls ++ rest) = .ok (inputs, rest)
  toParen : ∀ bound n taken rest, ls.length ≤ bound → inputs.length < n →
    inputsToParen (expression table bound) n taken (ls ++ plain .rightParen ")" :: rest) =
      .ok (taken.reverse ++ inputs, plain .rightParen ")" :: rest)

namespace InputSpelling

variable {table : ProcedureTable}

theorem nil : InputSpelling table [] [] [] where
  apart := by simp
  unbroken := List.not_mem_nil
  lexed _ _ := rfl
  quiet := .nil
  length_le := Nat.le_refl 0
  operatorFree _ h := h
  times _ _ _ _ := rfl
  toParen bound n taken rest _ hn := by
    obtain ⟨n, rfl⟩ := Nat.exists_eq_add_one.2 hn
    simp [inputsToParen, ahead, plain]

theorem apart_append {text rest : List Char} {inputs : List Node} {ls : List Lexeme}
    (h : InputSpelling table text inputs ls)
    (hrest : ∀ c, rest.head? = some c → endsWord c = true) :
    ∀ c, (text ++ rest).head? = some c → endsWord c = true := by
  cases text with
  | nil => exact hrest
  | cons d text => exact fun c hc => h.apart c hc

/-- A name before the inputs is a lexeme of its own. -/
theorem lexed_name {name : String} {text rest : List Char} {inputs : List Node} {ls : List Lexeme}
    (h : InputSpelling table text inputs ls) (hname : IsToken .symbol name)
    (hrest : ∀ c, rest.head? = some c → endsWord c = true) (touching : Bool) :
    ofPieces touching (pieces 0 (name.toList ++ text ++ rest)) =
      plain .symbol name :: ls ++ ofPieces true (pieces 0 rest) := by
  obtain ⟨c, s, rfl, hwhole⟩ := hname.exists_symbol
  rw [String.toList_ofList, List.append_assoc, List.cons_append,
    pieces_code_token hwhole (h.apart_append hrest), List.cons_append, ← h.lexed rest hrest]
  exact ofPieces_cons rfl rfl

/-- In parentheses, the other inputs are taken behind the first one. -/
theorem inputsToParen_of_opens {bound n : Nat} {l : Lexeme} {taken : List Node}
    {ls rest : List Lexeme} {node : Node} (hopens : l.opens = true)
    (hread : expression table bound (l :: ls) = .ok (node, rest)) :
    inputsToParen (expression table bound) (n + 1) taken (l :: ls) =
      inputsToParen (expression table bound) n (node :: taken) rest := by
  have hahead : (ahead (l :: ls)).kind = l.kind := rfl
  rw [Lexeme.opens] at hopens
  simp only [inputsToParen, hahead]
  split
  · next h => simp [h] at hopens
  · next h => simp [h] at hopens
  · next h => simp [h] at hopens
  · rw [hread]
    rfl

theorem cons {text texts : List Char} {node : Node} {inputs : List Node} {ls ms : List Lexeme}
    (h : Spelling table text node ls) (hs : InputSpelling table texts inputs ms) :
    InputSpelling table (' ' :: (text ++ texts)) (node :: inputs) (ls ++ ms) where
  apart := by
    rintro c ⟨⟩
    rfl
  unbroken := by simp [h.unbroken, hs.unbroken]
  lexed rest hrest := by
    obtain ⟨c, s, htext, hblank⟩ := h.starts
    have hspace : pieces 0 (' ' :: (text ++ (texts ++ rest))) =
        ⟨.blank, " "⟩ :: pieces 0 (text ++ (texts ++ rest)) := by
      refine pieces_space fun d hd => ?_
      rw [htext] at hd
      cases hd
      exact hblank
    rw [List.cons_append, List.append_assoc, hspace, List.append_assoc, ← hs.lexed rest hrest,
      ← h.lexed (texts ++ rest) (hs.apart_append hrest)]
    rfl
  quiet := h.quiet.append hs.quiet
  length_le := by
    obtain ⟨l, more, rfl, -⟩ := h.opens
    have := hs.length_le
    simp only [List.length_cons, List.length_append]
    omega
  operatorFree rest _ := by
    obtain ⟨l, more, rfl, hopens⟩ := h.opens
    exact operatorFree_of_opens hopens _
  times bound rest hbound hrest := by
    rw [List.length_append] at hbound
    -- The next input opens with no operator, so the first one ends before it.
    have hfirst := h.read bound (ms ++ rest) (by omega) (hs.operatorFree rest hrest)
    have hothers := hs.times bound rest (by omega) hrest
    simp only [List.append_assoc, List.length_cons, Reader.times, hfirst, bind,
      Except.bind, hothers]
    rfl
  toParen bound n taken rest hbound hn := by
    obtain ⟨n, rfl⟩ := Nat.exists_eq_add_one.2 (Nat.zero_lt_of_lt hn)
    rw [List.length_append] at hbound
    have hparen : OperatorFree (plain .rightParen ")" :: rest) := operatorFree_plain rfl rfl rfl rfl
    have hfirst := h.read bound (ms ++ plain .rightParen ")" :: rest) (by omega)
      (hs.operatorFree _ hparen)
    have hothers := hs.toParen bound n (node :: taken) rest (by omega) (Nat.lt_of_succ_lt_succ hn)
    obtain ⟨l, more, rfl, hopens⟩ := h.opens
    rw [List.cons_append] at hfirst
    rw [List.append_assoc, List.cons_append, inputsToParen_of_opens hopens hfirst, hothers]
    simp

end InputSpelling

/-! ## Calls -/

namespace Spelling

variable {table : ProcedureTable} {name : String} {text : List Char} {inputs : List Node}
  {ls : List Lexeme}

theorem ofPlainCall (hname : IsToken .symbol name) (hlower : Text.toLower name = name)
    (halias : isAliasWord name = false) (harity : table.arity? name = some inputs.length)
    (h : InputSpelling table text inputs ls) :
    Spelling table (name.toList ++ text) (.call name inputs.length inputs false)
      (plain .symbol name :: ls) where
  starts := by
    obtain ⟨c, s, rfl, hwhole⟩ := hname.exists_symbol
    rw [String.toList_ofList]
    exact ⟨c, s ++ text, rfl, hwhole.not_blank⟩
  unbroken := by
    rw [List.mem_append, not_or]
    exact ⟨hname.newline_notMem, h.unbroken⟩
  lexed rest hrest := h.lexed_name hname hrest false
  opens := ⟨_, _, rfl, rfl⟩
  quiet := .cons (by simp) (fun _ => halias) h.quiet
  read bound rest hbound hrest := by
    obtain ⟨n, rfl⟩ : ∃ n, bound = n + 1 := Nat.exists_eq_add_one.2 (Nat.zero_lt_of_lt hbound)
    refine expression_of_primary ?_ hrest
    have htext : (plain .symbol name).token.text = name := rfl
    have htimes := h.times n rest (Nat.le_of_succ_le_succ hbound) hrest
    simp only [List.cons_append, primary, kind_plain, htext, harity, htimes, bind, Except.bind]
    rw [Node.plainCall, hlower]
    rfl

theorem ofParenCall {arity : Nat} (hname : IsToken .symbol name) (hlower : Text.toLower name = name)
    (halias : isAliasWord name = false) (harity : table.arity? name = some arity)
    (h : InputSpelling table text inputs ls) :
    Spelling table ('(' :: (name.toList ++ text ++ [')'])) (.call name arity inputs true)
      (plain .leftParen "(" :: (plain .symbol name :: ls ++ [plain .rightParen ")"])) where
  starts := ⟨'(', _, rfl, rfl⟩
  unbroken := by simp [hname.newline_notMem, h.unbroken]
  lexed rest hrest := by
    have hclose : ∀ c, (')' :: rest).head? = some c → endsWord c = true := by
      rintro c ⟨⟩
      rfl
    have hassoc : '(' :: (name.toList ++ text ++ [')']) ++ rest =
        '(' :: (name.toList ++ text ++ ')' :: rest) := by
      simp
    rw [hassoc, pieces_code_leftParen, ofPieces_cons rfl rfl, h.lexed_name hname hclose true,
      pieces_code_rightParen, ofPieces_cons rfl rfl]
    simp
  opens := ⟨_, _, rfl, rfl⟩
  quiet := .cons (by simp) (by simp) <|
    Quiet.append (.cons (by simp) (fun _ => halias) h.quiet) (.cons (by simp) (by simp) .nil)
  read bound rest hbound hrest := by
    obtain ⟨n, rfl⟩ : ∃ n, bound = n + 1 := Nat.exists_eq_add_one.2 (Nat.zero_lt_of_lt hbound)
    refine expression_of_primary ?_ hrest
    have hlength := h.length_le
    simp only [List.length_cons, List.length_append, List.length_nil] at hbound
    have hinputs := h.toParen n n [] rest (by omega) (by omega)
    have hexpect : expect .rightParen (plain .rightParen ")" :: rest) =
        .ok ((plain .rightParen ")").token, rest) := rfl
    have hhead : ahead (plain .symbol name :: (ls ++ plain .rightParen ")" :: rest)) =
        ⟨.symbol, name, .start⟩ := rfl
    have hparen : parenthesis table n (expression table n)
        (plain .symbol name :: (ls ++ plain .rightParen ")" :: rest)) =
        .ok (.call name arity inputs true, rest) := by
      simp only [parenthesis, hhead, if_true, harity, List.tail_cons, hinputs, bind, Except.bind,
        hexpect]
      rw [Node.parenCall, hlower]
      rfl
    have happend :
        plain .leftParen "(" :: (plain .symbol name :: ls ++ [plain .rightParen ")"]) ++ rest =
          plain .leftParen "(" :: plain .symbol name :: (ls ++ plain .rightParen ")" :: rest) := by
      simp
    rw [happend]
    exact hparen

end Spelling

/-! ## Reading canonical texts -/

namespace Node

theorem toList_spaced_cons (text : String) (texts : List String) :
    (spaced (text :: texts)).toList = text.toList ++ texts.flatMap fun t => ' ' :: t.toList := by
  induction texts generalizing text with
  | nil => simp [spaced]
  | cons t texts ih =>
    have hspaced : spaced (text :: t :: texts) = text ++ " " ++ spaced (t :: texts) :=
      String.intercalate_cons_cons
    rw [hspaced, String.toList_append, String.toList_append, ih, List.flatMap_cons]
    simp

/-- Inputs that have spellings have one together. -/
theorem exists_inputSpelling {table : ProcedureTable} {inputs : List Node}
    (h : ∀ input ∈ inputs, ∃ ls, Spelling table input.canonical.toList input ls) :
    ∃ ls, InputSpelling table
      ((canonicalEach inputs).flatMap fun t => ' ' :: t.toList) inputs ls := by
  induction inputs with
  | nil => exact ⟨[], .nil⟩
  | cons input inputs ih =>
    rw [List.forall_mem_cons] at h
    obtain ⟨ls, hls⟩ := h.1
    obtain ⟨ms, hms⟩ := ih h.2
    exact ⟨ls ++ ms, .cons hls hms⟩

/-- Every well-formed expression is spelled by its canonical text. -/
theorem WellFormed.exists_spelling {table : ProcedureTable} {node : Node}
    (h : node.WellFormed table) : ∃ ls, Spelling table node.canonical.toList node ls := by
  induction h with
  | integer value => exact Spelling.ofInteger value
  | boolean value => exact Spelling.ofBoolean value
  | nil => exact Spelling.ofNil
  | quoted solid => exact Spelling.ofQuoted solid
  | reference ne_empty solid => exact Spelling.ofReference ne_empty solid
  | symbol token undefined not_alias => exact Spelling.ofSymbol token undefined not_alias
  | list raw => exact ⟨_, .ofRawList raw.items⟩
  | plainCall token lower not_alias arity_eq length_eq _ ih =>
    subst length_eq
    obtain ⟨ls, hls⟩ := exists_inputSpelling ih
    rw [canonical, inParens, if_neg Bool.false_ne_true, toList_spaced_cons]
    exact ⟨_, .ofPlainCall token lower not_alias arity_eq hls⟩
  | parenCall token lower not_alias arity_eq _ ih =>
    obtain ⟨ls, hls⟩ := exists_inputSpelling ih
    rw [canonical, inParens, if_pos rfl, String.toList_append, String.toList_append,
      toList_spaced_cons]
    exact ⟨_, .ofParenCall token lower not_alias arity_eq hls⟩

end Node

/-- The canonical text of a well-formed expression is a program of one statement, the expression,
and leaves the procedure table as it is. -/
theorem canonical_text_read (table : ProcedureTable) (node : Node) (h : node.WellFormed table)
    (keep : Bool) : readText keep table node.canonical = (.ok [node], table) := by
  obtain ⟨ls, hls⟩ := h.exists_spelling
  have hread := hls.readText_eq keep
  rwa [String.ofList_toList] at hread

/-- A negative number behind a name is an input, and so is all that stands in parentheses behind it.
-/
theorem canonical_text_read_nested :
    (Node.call "f" 2 [.integer (-5), .call "f" 2 [.quoted "x-1"] true] false).WellFormed
        (ProcedureTable.empty.define (.ofHeader "f" ["a", "b"] 1)) ∧
      readText false (ProcedureTable.empty.define (.ofHeader "f" ["a", "b"] 1)) "f -5 (f \"x-1)" =
        (.ok [.call "f" 2 [.integer (-5), .call "f" 2 [.quoted "x-1"] true] false],
          ProcedureTable.empty.define (.ofHeader "f" ["a", "b"] 1)) := by
  have hlongest : longest code ['f'] = (.symbol, 1) := by decide +kernel
  have hf : IsToken .symbol "f" := .of_longest hlongest
  have harity : (ProcedureTable.empty.define (.ofHeader "f" ["a", "b"] 1)).arity? "f" = some 2 := by
    decide
  have hsolid : ("x-1".toList.all fun c => !endsWord c) = true := by decide
  have hwellFormed :
      (Node.call "f" 2 [.integer (-5), .call "f" 2 [.quoted "x-1"] true] false).WellFormed
        (ProcedureTable.empty.define (.ofHeader "f" ["a", "b"] 1)) := by
    refine .plainCall hf (by decide) (by decide) harity rfl ?_
    rw [List.forall_mem_cons, List.forall_mem_singleton]
    refine ⟨.integer _, .parenCall hf (by decide) (by decide) harity ?_⟩
    rw [List.forall_mem_singleton]
    exact .quoted fun c hc => by simpa using List.all_eq_true.1 hsolid c hc
  exact ⟨hwellFormed, canonical_text_read _ _ hwellFormed false⟩

end Logo
