import Logo.Proofs.OneLine

/-!
# Spellings of expressions

`Spelling table text node ls` says all that is needed to put the text of an expression into a larger
text: what its lexemes are before anything that ends words, that these are read as the node if no
operator follows, and that the passes over headers and aliases find nothing in them.  A text with a
spelling is a program of one statement (`Spelling.readText_eq`).

Words that are one token have spellings by one argument (`Spelling.ofToken`).
-/

namespace Logo

open TokenRule Token Lexeme

/-! ## Lexemes that the first passes skip -/

namespace Reader

/-- The passes over headers and aliases find nothing in the lexemes, whatever follows. -/
structure Quiet (ls : List Lexeme) : Prop where
  headers : ∀ table rest, enterHeaders table (ls ++ rest) = enterHeaders table rest
  aliases : ∀ table rest, enterAliases table (ls ++ rest) = enterAliases table rest

theorem Quiet.nil : Quiet [] :=
  ⟨fun _ _ => rfl, fun _ _ => rfl⟩

theorem Quiet.append {ls ms : List Lexeme} (hls : Quiet ls) (hms : Quiet ms) :
    Quiet (ls ++ ms) := by
  refine ⟨fun table rest => ?_, fun table rest => ?_⟩
  · rw [List.append_assoc, hls.headers, hms.headers]
  · rw [List.append_assoc, hls.aliases, hms.aliases]

/-- The word that makes an alias, in any mixture of cases. -/
def isAliasWord (text : String) : Bool :=
  text.toList.map Char.toLower == "alias".toList

theorem aliasDirective?_of_head {l : Lexeme}
    (h : l.kind = .symbol → isAliasWord l.token.text = false) (ls : List Lexeme) :
    aliasDirective? (l :: ls) = none := by
  match ls with
  | [] | [_] => rfl
  | _ :: _ :: _ =>
    rw [aliasDirective?, if_neg]
    rintro ⟨hsymbol, halias, -⟩
    rw [isAliasWord, halias] at h
    exact absurd (h hsymbol) (by decide)

theorem aliasDirective?_of_second {m : Lexeme} (h : m.kind ≠ .quote) (l : Lexeme)
    (ls : List Lexeme) : aliasDirective? (l :: m :: ls) = none := by
  cases ls with
  | nil => rfl
  | cons n ls =>
    rw [aliasDirective?, if_neg]
    rintro ⟨-, -, hquote, -⟩
    exact h hquote

/-- The alias pass goes past what is no directive. -/
theorem enterAliases_cons {l : Lexeme} {ls : List Lexeme} (h : aliasDirective? (l :: ls) = none)
    (table : ProcedureTable) : enterAliases table (l :: ls) = enterAliases table ls := by
  rw [enterAliases, h]

/-- A lexeme that opens neither a definition nor a directive keeps the others quiet. -/
theorem Quiet.cons {l : Lexeme} {ls : List Lexeme} (hto : l.kind ≠ .toWord)
    (halias : l.kind = .symbol → isAliasWord l.token.text = false) (hls : Quiet ls) :
    Quiet (l :: ls) := by
  refine ⟨fun table rest => ?_, fun table rest => ?_⟩
  · rw [List.cons_append, enterHeaders, if_neg hto, hls.headers]
  · rw [List.cons_append, enterAliases_cons (aliasDirective?_of_head halias _), hls.aliases]

/-! ## Where an expression starts and ends -/

/-- No operator stands ahead. -/
structure OperatorFree (ls : List Lexeme) : Prop where
  equality : operator? equality ls = none
  comparison : operator? comparison ls = none
  additive : operator? additive ls = none
  multiplicative : operator? multiplicative ls = none

/-- A primary expression is an expression if no operator follows it. -/
theorem expression_of_primary {table : ProcedureTable} {n : Nat} {node : Node}
    {ls rest : List Lexeme} (h : primary table n (expression table n) ls = .ok (node, rest))
    (hrest : OperatorFree rest) : expression table (n + 1) ls = .ok (node, rest) := by
  -- The same holds at each level of precedence, up to the bound on further operands.
  have hlevel : ∀ {operators : Operators} {operand : Parse Node}, operand ls = .ok (node, rest) →
      operator? operators rest = none → binary n operators operand ls = .ok (node, rest) := by
    intro operators operand hoperand hnone
    rw [binary, hoperand]
    cases n with
    | zero => rfl
    | succ n =>
      show chain operators operand (n + 1) node rest = _
      simp only [chain, hnone]
  exact hlevel (hlevel (hlevel (hlevel h hrest.multiplicative) hrest.additive) hrest.comparison)
    hrest.equality

end Reader

/-- Whether an expression can start with the lexeme. -/
def Lexeme.opens (l : Lexeme) : Bool :=
  match l.kind with
  | .trueWord | .falseWord | .nilWord | .number | .symbol | .quote | .reference | .leftBracket
  | .leftParen => true
  | .minus => l.isSign
  | _ => false

namespace Reader

/-- Behind an operand no operator follows if the next lexeme opens a statement. -/
theorem operatorFree_of_opens {l : Lexeme} (h : l.opens = true) (ls : List Lexeme) :
    OperatorFree (l :: ls) := by
  obtain ⟨⟨kind, text, position⟩, isSign⟩ := l
  cases kind with
  | minus =>
    have hsign : isSign = true := h
    subst hsign
    exact ⟨rfl, rfl, rfl, rfl⟩
  | trueWord | falseWord | nilWord | number | symbol | quote | reference | leftBracket
  | leftParen =>
    cases isSign <;> exact ⟨rfl, rfl, rfl, rfl⟩
  | _ => cases h

theorem operatorFree_plain {kind : TokenClass} {text : String} {ls : List Lexeme}
    (hequality : equality kind = none) (hcomparison : comparison kind = none)
    (hadditive : additive kind = none) (hmultiplicative : multiplicative kind = none) :
    OperatorFree (plain kind text :: ls) :=
  ⟨hequality, hcomparison, hadditive, hmultiplicative⟩

/-- A statement that opens with an expression is that expression. -/
theorem statement_of_opens {l : Lexeme} (h : l.opens = true) {n : Nat} {table : ProcedureTable}
    {ls rest : List Lexeme} {node : Node}
    (hread : expression table (n + 1) (l :: ls) = .ok (node, rest)) :
    statement (n + 1) table (l :: ls) = (.ok (.expression node, rest), table) := by
  have hkind : (ahead (l :: ls)).kind = l.kind := rfl
  rw [statement, hkind]
  rw [Lexeme.opens] at h
  split
  · next hnewline => simp [hnewline] at h
  · next hto => simp [hto] at h
  · rw [hread]

/-- Lexemes in which the first passes find nothing go straight to the last pass. -/
theorem program_of_quiet {ls : List Lexeme} (h : Quiet ls) (keep : Bool) (table : ProcedureTable) :
    program keep table (ls ++ [Lexeme.closing]) =
      statements keep (ls.length + 1) [] table (ls ++ [Lexeme.closing]) := by
  have hheaders : enterHeaders table (ls ++ [Lexeme.closing]) = (.ok (), table) := h.headers table _
  have haliases : enterAliases table (ls ++ [Lexeme.closing]) = (.ok (), table) := h.aliases table _
  simp only [program, hheaders, haliases, List.length_append, List.length_singleton]

/-- A program that is one expression is the statement it gives. -/
theorem statements_of_opens {l : Lexeme} (h : l.opens = true) {n : Nat} (keep : Bool)
    {table : ProcedureTable} {ls : List Lexeme} {node : Node}
    (hread : expression table (n + 1) (l :: ls) = .ok (node, [Lexeme.closing])) :
    statements keep (n + 1) [] table (l :: ls) = (.ok [node], table) := by
  have heof : (ahead (l :: ls)).kind ≠ .eof := by
    intro heof
    have hkind : l.kind = .eof := heof
    rw [Lexeme.opens, hkind] at h
    cases h
  rw [statements, if_neg heof, statement_of_opens h hread]
  cases n <;> rfl

end Reader

/-! ## Spellings -/

/-- The kinds of tokens that are expressions, or calls without inputs, by themselves. -/
def TokenClass.isWord : TokenClass → Bool
  | .trueWord | .falseWord | .nilWord | .number | .symbol | .quote | .reference => true
  | _ => false

section IsWord

variable {kind : TokenClass} (h : kind.isWord = true)

include h

theorem Lexeme.opens_of_isWord {text : String} : (plain kind text).opens = true := by
  cases kind with
  | trueWord | falseWord | nilWord | number | symbol | quote | reference => rfl
  | _ => cases h

theorem Token.depthAfter_of_isWord {depth : Nat} : depthAfter depth kind = depth := by
  cases kind with
  | trueWord | falseWord | nilWord | number | symbol | quote | reference => rfl
  | _ => cases h

theorem Lexeme.ofPieces_cons_of_isWord {touching : Bool} {text : String} {ps : List Piece} :
    ofPieces touching (⟨kind, text⟩ :: ps) = plain kind text :: ofPieces true ps := by
  cases kind with
  | trueWord | falseWord | nilWord | number | symbol | quote | reference =>
    exact ofPieces_cons rfl rfl
  | _ => cases h

end IsWord

open Reader

/-- The text writes the node with the lexemes. -/
structure Spelling (table : ProcedureTable) (text : List Char) (node : Node) (ls : List Lexeme) :
    Prop where
  starts : ∃ c s, text = c :: s ∧ Text.isBlank c = false
  unbroken : '\n' ∉ text
  lexed : ∀ rest, (∀ c, rest.head? = some c → endsWord c = true) →
    ofPieces false (pieces 0 (text ++ rest)) = ls ++ ofPieces true (pieces 0 rest)
  opens : ∃ l more, ls = l :: more ∧ l.opens = true
  quiet : Quiet ls
  read : ∀ bound rest, ls.length ≤ bound → OperatorFree rest →
    expression table bound (ls ++ rest) = .ok (node, rest)

namespace Spelling

variable {table : ProcedureTable} {text : List Char} {node : Node} {ls : List Lexeme}

/-- A spelled expression is a program of one statement. -/
theorem readText_eq (h : Spelling table text node ls) (keep : Bool) :
    readText keep table (String.ofList text) = (.ok [node], table) := by
  have hlexed := h.lexed [] (by simp)
  rw [pieces_nil, ofPieces, List.append_nil, List.append_nil] at hlexed
  have hfree : OperatorFree [Lexeme.closing] := operatorFree_plain rfl rfl rfl rfl
  have hread := h.read (ls.length + 1) [Lexeme.closing] (Nat.le_succ _) hfree
  refine eq_of_withoutColumns_eq_ok ?_
  rw [withoutColumns_readText (by simpa using h.unbroken), String.toList_ofList, hlexed,
    program_of_quiet h.quiet]
  obtain ⟨l, more, rfl, hopens⟩ := h.opens
  exact statements_of_opens hopens keep hread

/-- A token that is an expression by itself spells it. -/
theorem ofToken {kind : TokenClass} {c : Char} {s : List Char} (h : WholeToken kind c s)
    (hword : kind.isWord = true)
    (halias : kind = .symbol → isAliasWord (String.ofList (c :: s)) = false)
    (hread : ∀ n inner rest, primary table n inner (plain kind (String.ofList (c :: s)) :: rest) =
      .ok (node, rest)) :
    Spelling table (c :: s) node [plain kind (String.ofList (c :: s))] where
  starts := ⟨c, s, rfl, h.not_blank⟩
  unbroken := h.newline_notMem
  lexed rest hrest := by
    rw [List.cons_append, pieces_code_token h hrest, depthAfter_of_isWord hword,
      ofPieces_cons_of_isWord hword]
    rfl
  opens := ⟨_, [], rfl, opens_of_isWord hword⟩
  quiet := by
    refine .cons ?_ halias .nil
    rintro hto
    have hkind : kind = .toWord := hto
    subst hkind
    cases hword
  read bound rest hbound hrest := by
    obtain ⟨n, rfl⟩ : ∃ n, bound = n + 1 := ⟨bound - 1, (Nat.sub_add_cancel hbound).symm⟩
    exact expression_of_primary (hread n _ rest) hrest

end Spelling

end Logo
