import Logo.Proofs.RawList
import Logo.Proofs.Shape
import Logo.Proofs.Words

/-!
# Formulas

A formula joins operands by operators of four levels: from the loosest to the tightest, equalities,
comparisons, sums and products.  Its text has a space on each side of every operator, and
parentheses around a left part that is looser than the operator and around a right part that is no
tighter.  The text is read as the tree of the formula (`formula_text_read`), whatever the procedure
table holds: no operand is a name, and a minus is the sign of a number only where a space or a
parenthesis comes before it and the digits behind it.

Operators of one level are folded to the left while they are read, so what is said about the left
part of a formula is how the reader goes on behind it (`Reader.Leads`).
-/

namespace Logo

open TokenRule Token Lexeme Reader

/-! ## Operators -/

/-- The operators that stand between two operands. -/
inductive Operator where
  | equal
  | equalEqual
  | bangEqual
  | less
  | greater
  | lessEqual
  | greaterEqual
  | plus
  | minus
  | star
  | slash
deriving DecidableEq, Repr

namespace Operator

/-- How the operator is written. -/
def mark : Operator → String
  | equal => "="
  | equalEqual => "=="
  | bangEqual => "!="
  | less => "<"
  | greater => ">"
  | lessEqual => "<="
  | greaterEqual => ">="
  | plus => "+"
  | minus => "-"
  | star => "*"
  | slash => "/"

/-- The procedure that the operator calls. -/
def procedure : Operator → String
  | equal | equalEqual => "equal?"
  | bangEqual => "notequal?"
  | less => "less?"
  | greater => "greater?"
  | lessEqual => "lessequal?"
  | greaterEqual => "greaterequal?"
  | plus => "add"
  | minus => "sub"
  | star => "mul"
  | slash => "div"

/-- How tightly the operator binds. -/
def level : Operator → Nat
  | equal | equalEqual | bangEqual => 0
  | less | greater | lessEqual | greaterEqual => 1
  | plus | minus => 2
  | star | slash => 3

/-- The kind of the operator's token. -/
def kind : Operator → TokenClass
  | equal => .equal
  | equalEqual => .equalEqual
  | bangEqual => .bangEqual
  | less => .less
  | greater => .greater
  | lessEqual => .lessEqual
  | greaterEqual => .greaterEqual
  | plus => .plus
  | minus => .minus
  | star => .star
  | slash => .slash

/-- The mark of an operator is one token. -/
theorem exists_wholeToken (operator : Operator) :
    ∃ c s, operator.mark.toList = c :: s ∧ WholeToken operator.kind c s := by
  cases operator <;> exact ⟨_, _, rfl, by decide, rfl, by decide +kernel⟩

/-- An operator belongs to the level that it binds at, and to none of the tighter ones. -/
theorem exists_operators (operator : Operator) :
    ∃ operators,
      precedence.drop operator.level = operators :: precedence.drop (operator.level + 1) ∧
      operators operator.kind = some operator.procedure ∧
      ∀ tighter ∈ precedence.drop (operator.level + 1), tighter operator.kind = none := by
  cases operator <;>
    exact ⟨_, rfl, rfl, by simp [precedence, level, kind, comparison, additive, multiplicative]⟩

theorem toLower_procedure (operator : Operator) :
    Text.toLower operator.procedure = operator.procedure :=
  toLower_of_mem_infixNames (by cases operator <;> decide)

theorem kind_ne (operator : Operator) : operator.kind ≠ .toWord ∧ operator.kind ≠ .symbol := by
  cases operator <;> decide

theorem newline_notMem_mark (operator : Operator) : '\n' ∉ operator.mark.toList := by
  obtain ⟨c, s, hmark, hwhole⟩ := operator.exists_wholeToken
  rw [hmark]
  exact hwhole.newline_notMem

/-- Between spaces an operator is a lexeme of its own, and what comes next touches nothing.  So a
minus is not taken for a sign. -/
theorem ofPieces_between (operator : Operator) {c : Char} (hc : Text.isBlank c = false)
    (touching : Bool) (cs : List Char) :
    ofPieces touching (pieces 0 (' ' :: (operator.mark.toList ++ ' ' :: c :: cs))) =
      plain operator.kind operator.mark :: ofPieces false (pieces 0 (c :: cs)) := by
  obtain ⟨d, s, hmark, hwhole⟩ := operator.exists_wholeToken
  have hspace : ∀ d, (' ' :: c :: cs).head? = some d → endsWord d = true := by
    rintro d ⟨⟩
    rfl
  have htext : String.ofList (d :: s) = operator.mark := by rw [← hmark, String.ofList_toList]
  have hdepth : depthAfter 0 operator.kind = 0 := by cases operator <;> rfl
  rw [hmark, List.cons_append, pieces_space (by simpa using hwhole.not_blank),
    pieces_code_token hwhole hspace, htext, hdepth, pieces_space (by simpa using hc)]
  cases operator <;> rfl

end Operator

/-! ## Formulas -/

/-- The nodes that a text writes as one operand.  A reference can be written if its name is not
empty and does not end early. -/
inductive Node.IsOperand : Node → Prop
  | integer (value : Int64) : IsOperand (.integer value)
  | reference {name : String} (ne_empty : name ≠ "")
      (solid : ∀ c ∈ name.toList, endsReference c = false) : IsOperand (.reference name)
  | quoted {text : String} (solid : ∀ c ∈ text.toList, endsWord c = false) :
      IsOperand (.quoted text)
  | list {items : List Node} (raw : (Node.list items).Raw) : IsOperand (.list items)

/-- Operands joined by operators. -/
inductive Formula where
  | operand (node : Node) (isOperand : node.IsOperand)
  | join (operator : Operator) (left right : Formula)

namespace Formula

/-- How tightly a formula holds together: an operand by itself holds tighter than any operator
binds. -/
def level : Formula → Nat
  | operand _ _ => 4
  | join operator _ _ => operator.level

/-- The text of a formula.  A left part that is looser than the operator stands in parentheses, and
so does a right part that is no tighter. -/
def text : Formula → String
  | operand node _ => node.toSource
  | join operator left right =>
    Node.inParens (left.level < operator.level) left.text ++ " " ++ operator.mark ++ " " ++
      Node.inParens (right.level ≤ operator.level) right.text

/-- The tree of a formula: every operator calls its procedure with two inputs. -/
def tree : Formula → Node
  | operand node _ => node
  | join operator left right => .call operator.procedure 2 [left.tree, right.tree] false

end Formula

/-! ## Reading operands level by level -/

namespace Reader

variable {table : ProcedureTable} {levels levels' : List Operators} {node : Node}
  {ls after : List Lexeme}

theorem operator?_eq_none {l : Lexeme} (h : isOperator l.kind = false) :
    ∀ operators ∈ precedence, operator? operators (l :: ls) = none := by
  intro operators hoperators
  rw [Option.eq_none_iff_forall_ne_some]
  intro name hname
  rw [(infix_of_operator? hoperators hname).1] at h
  cases h

/-- How the reader goes on behind a first operand, on the loosest of the levels: to the whole node
and what is left.  Without levels it does not go on. -/
def GoesOn (table : ProcedureTable) (node : Node) (after : List Lexeme) (whole : Node)
    (rest : List Lexeme) : List Operators → Prop
  | [] => whole = node ∧ rest = after
  | operators :: levels => Reads table (.chain operators levels node) after [whole] rest

/-- The lexemes lead an operand of the levels, with the node as what is read so far: they are read
together with whatever the reader takes behind the node. -/
def Leads (table : ProcedureTable) (levels : List Operators) (ls : List Lexeme) (node : Node) :
    Prop :=
  ∀ after whole rest, (∀ operators ∈ levels.tail, operator? operators after = none) →
    GoesOn table node after whole rest levels →
    Reads table (.operand levels) (ls ++ after) [whole] rest

namespace Leads

theorem of_primary (h : ∀ after, Reads table (.operand []) (ls ++ after) [node] after) :
    Leads table [] ls node := by
  rintro after whole rest - ⟨rfl, rfl⟩
  exact h _

/-- If none of the operators follows, the operand ends. -/
theorem reads (h : Leads table levels ls node)
    (hafter : ∀ operators ∈ levels, operator? operators after = none) :
    Reads table (.operand levels) (ls ++ after) [node] after := by
  cases levels with
  | nil => exact h after node after nofun ⟨rfl, rfl⟩
  | cons operators levels =>
    rw [List.forall_mem_cons] at hafter
    exact h after node after hafter.2 (.chainEnd hafter.1)

theorem of_suffix (h : Leads table levels ls node) (hsuffix : levels <:+ levels') :
    Leads table levels' ls node := by
  obtain ⟨looser, rfl⟩ := hsuffix
  induction looser with
  | nil => exact h
  | cons operators looser ih =>
    intro after whole rest hafter hwhole
    exact .level (ih.reads hafter) hwhole

theorem group (h : Leads table precedence ls node)
    (hcallee : ∀ after, callee? table (ls ++ after) = none) :
    Leads table [] (plain .leftParen "(" :: (ls ++ [plain .rightParen ")"])) node := by
  refine of_primary fun after => ?_
  rw [List.cons_append, List.append_assoc]
  exact .group rfl (hcallee _) (h.reads (operator?_eq_none rfl)) rfl

/-- An operator between its two parts: the left one is read up to it, and the right one ends before
the next operator of the level. -/
theorem join {operators : Operators} {operator : Operator} {left right : Node} {ms : List Lexeme}
    (hleft : Leads table (operators :: levels) ls left) (hright : Leads table levels ms right)
    (hname : operators operator.kind = some operator.procedure)
    (htighter : ∀ tighter ∈ levels, tighter operator.kind = none) :
    Leads table (operators :: levels) (ls ++ plain operator.kind operator.mark :: ms)
      (.call operator.procedure 2 [left, right] false) := by
  intro after whole rest hafter hwhole
  have hcall : Node.plainCall operator.procedure 2 [left, right] =
      .call operator.procedure 2 [left, right] false := by
    rw [Node.plainCall, operator.toLower_procedure]
  rw [← hcall] at hwhole
  rw [List.append_assoc]
  exact hleft _ _ _ htighter (.chainStep hname (hright.reads hafter) hwhole)

end Leads

end Reader

/-! ## Spelling operands -/

/-- The text writes the node with the lexemes, as an operand of the levels.  `touching` says that a
lexeme reaches up to the text. -/
structure OperandSpelling (table : ProcedureTable) (levels : List Operators) (touching : Bool)
    (text : List Char) (node : Node) (ls : List Lexeme) : Prop where
  starts : ∃ c s, text = c :: s ∧ Text.isBlank c = false
  unbroken : '\n' ∉ text
  lexed : ∀ rest, (∀ c, rest.head? = some c → endsWord c = true) →
    ofPieces touching (pieces 0 (text ++ rest)) = ls ++ ofPieces true (pieces 0 rest)
  quiet : Quiet ls
  nameless : ∀ after, callee? table (ls ++ after) = none
  leads : Leads table levels ls node

namespace OperandSpelling

variable {table : ProcedureTable} {levels levels' : List Operators} {touching : Bool}
  {text : List Char} {node : Node} {ls : List Lexeme}

theorem of_suffix (h : OperandSpelling table levels touching text node ls)
    (hsuffix : levels <:+ levels') : OperandSpelling table levels' touching text node ls :=
  { h with leads := h.leads.of_suffix hsuffix }

/-! ### Single operands -/

/-- A word that has a node by itself spells it. -/
theorem ofWord {kind : TokenClass} {c : Char} {s : List Char} (h : WholeToken kind c s)
    (hword : kind.isWord = true) (hsymbol : kind ≠ .symbol)
    (hnode : literal? (plain kind (String.ofList (c :: s))) = some node) :
    OperandSpelling table [] touching (c :: s) node [plain kind (String.ofList (c :: s))] where
  starts := ⟨c, s, rfl, h.not_blank⟩
  unbroken := h.newline_notMem
  lexed rest hrest := by
    rw [List.cons_append, pieces_code_token h hrest, depthAfter_of_isWord hword,
      ofPieces_cons_of_isWord hword]
    rfl
  quiet := by
    refine .cons ?_ (fun hkind => absurd hkind hsymbol) .nil
    rintro rfl
    cases hword
  nameless _ := if_neg hsymbol
  leads := .of_primary fun _ => .literal hnode

theorem ofNatural {value : Int64} {n : Nat} (hvalue : value.toInt = n) :
    ∃ ls, OperandSpelling table [] touching (Nat.toDigits 10 n) (.integer value) ls := by
  obtain ⟨c, s, htext, hwhole, hnumber⟩ := Spelling.exists_natural hvalue
  rw [htext]
  exact ⟨_, .ofWord hwhole rfl (by decide) (congrArg Except.toOption (hnumber _))⟩

/-- A minus before digits is a sign where nothing touches it, and is read as one behind a
parenthesis, too. -/
theorem ofNegative {value : Int64} {n : Nat} (hvalue : value.toInt = -(n : Int)) :
    ∃ ls, OperandSpelling table [] touching ('-' :: Nat.toDigits 10 n) (.integer value) ls := by
  obtain ⟨c, s, htext, hwhole, hnumber⟩ := Spelling.exists_negative hvalue
  rw [htext]
  refine ⟨[⟨⟨.minus, "-", .start⟩, !touching⟩, plain .number (String.ofList (c :: s))], ?_⟩
  refine ⟨⟨'-', c :: s, rfl, rfl⟩, ?_, fun rest hrest => ?_, ?_, fun _ => rfl, ?_⟩
  · rw [List.mem_cons, not_or]
    exact ⟨by decide, hwhole.newline_notMem⟩
  · rw [List.cons_append, List.cons_append, pieces_code_minus, pieces_code_token hwhole hrest]
    rfl
  · exact .cons nofun nofun (.cons nofun nofun .nil)
  · exact .of_primary fun _ => .signed rfl rfl (hnumber _)

theorem ofRawList {items : List Node} (h : ∀ item ∈ items, item.Raw) :
    OperandSpelling table [] touching (Node.list items).toSource.toList (.list items)
      (Node.list items).rawLexemes where
  starts := (Node.Raw.list h).head_toSource
  unbroken hmem := absurd ((Node.Raw.list h).eq_space _ hmem rfl) (by decide)
  lexed rest _ := by
    rw [toList_toSource_list, List.cons_append, List.append_assoc]
    exact (spells_renderBlock h).ofPieces_code touching rest
  quiet := (Spelling.ofRawList h : Spelling table _ _ _).quiet
  nameless _ := by
    rw [Node.rawLexemes]
    rfl
  leads := by
    refine .of_primary fun after => ?_
    rw [Node.rawLexemes, List.cons_append, List.append_assoc]
    exact .list rfl (listItems_rawList h after)

/-- Every operand is spelled by its text. -/
theorem ofOperand (h : node.IsOperand) :
    ∃ ls, OperandSpelling table [] touching node.toSource.toList node ls := by
  cases h with
  | integer value =>
    rcases Node.toList_toSource_integer value with ⟨n, hvalue, htext⟩ | ⟨n, hvalue, htext⟩
    · rw [htext]
      exact ofNatural hvalue
    · rw [htext]
      exact ofNegative hvalue
  | @reference name ne_empty solid =>
    have hne : name.toList ≠ [] := by simpa using ne_empty
    rw [Node.toList_toSource_reference]
    refine ⟨_, .ofWord ⟨by decide, rfl, longest_reference hne solid⟩ rfl (by decide) ?_⟩
    simp [literal?, plain, Lexeme.kind, Token.unmarked]
  | @quoted text solid =>
    rw [Node.toList_toSource_quoted]
    refine ⟨_, .ofWord ⟨by decide, rfl, longest_quote solid⟩ rfl (by decide) ?_⟩
    simp [literal?, plain, Lexeme.kind, Token.unmarked]
  | list raw => exact ⟨_, ofRawList raw.items⟩

/-! ### Parentheses and operators -/

theorem group (h : OperandSpelling table precedence true text node ls) :
    OperandSpelling table [] touching ('(' :: (text ++ [')'])) node
      (plain .leftParen "(" :: (ls ++ [plain .rightParen ")"])) where
  starts := ⟨'(', _, rfl, rfl⟩
  unbroken := by simp [h.unbroken]
  lexed rest _ := by
    have hclose : ∀ c, (')' :: rest).head? = some c → endsWord c = true := by
      rintro c ⟨⟩
      rfl
    have hassoc : '(' :: (text ++ [')']) ++ rest = '(' :: (text ++ ')' :: rest) := by simp
    rw [hassoc, pieces_code_leftParen, ofPieces_cons rfl rfl, h.lexed _ hclose,
      pieces_code_rightParen, ofPieces_cons rfl rfl]
    simp
  quiet := .cons nofun nofun (h.quiet.append (.cons nofun nofun .nil))
  nameless _ := rfl
  leads := h.leads.group h.nameless

theorem join {operator : Operator} {text' : List Char} {node' : Node} {ms : List Lexeme}
    (hleft : OperandSpelling table (precedence.drop operator.level) touching text node ls)
    (hright : OperandSpelling table (precedence.drop (operator.level + 1)) false text' node' ms) :
    OperandSpelling table (precedence.drop operator.level) touching
      (text ++ ' ' :: (operator.mark.toList ++ ' ' :: text'))
      (.call operator.procedure 2 [node, node'] false)
      (ls ++ plain operator.kind operator.mark :: ms) where
  starts := by
    obtain ⟨c, s, rfl, hblank⟩ := hleft.starts
    exact ⟨c, _, rfl, hblank⟩
  unbroken := by
    simp [hleft.unbroken, hright.unbroken, operator.newline_notMem_mark]
  lexed rest hrest := by
    have hassoc : text ++ ' ' :: (operator.mark.toList ++ ' ' :: text') ++ rest =
        text ++ ' ' :: (operator.mark.toList ++ ' ' :: (text' ++ rest)) := by
      simp
    have hspace : ∀ c, (' ' :: (operator.mark.toList ++ ' ' :: (text' ++ rest))).head? = some c →
        endsWord c = true := by
      rintro c ⟨⟩
      rfl
    rw [hassoc, hleft.lexed _ hspace, List.append_assoc, List.cons_append,
      ← hright.lexed rest hrest]
    obtain ⟨c, s, rfl, hblank⟩ := hright.starts
    rw [List.cons_append, operator.ofPieces_between hblank]
  quiet :=
    hleft.quiet.append
      (.cons operator.kind_ne.1 (fun h => absurd h operator.kind_ne.2) hright.quiet)
  nameless after := by
    rw [List.append_assoc]
    exact hleft.nameless _
  leads := by
    obtain ⟨operators, hdrop, hname, htighter⟩ := operator.exists_operators
    have hlead := hleft.leads
    rw [hdrop] at hlead ⊢
    exact hlead.join hright.leads hname htighter

/-- A part of a formula stands between parentheses unless it is tight enough without them. -/
theorem exists_inParens {text : String} {loose : Bool} {n m : Nat} (hbare : loose = false → m ≤ n)
    (h : ∀ touching, ∃ ls, OperandSpelling table (precedence.drop n) touching text.toList node ls)
    (touching : Bool) :
    ∃ ls, OperandSpelling table (precedence.drop m) touching
      (Node.inParens loose text).toList node ls := by
  cases loose with
  | false =>
    obtain ⟨ls, hls⟩ := h touching
    exact ⟨ls, hls.of_suffix (List.drop_suffix_drop_left precedence (hbare rfl))⟩
  | true =>
    obtain ⟨ls, hls⟩ := h true
    have htext : (Node.inParens true text).toList = '(' :: (text.toList ++ [')']) := by
      simp [Node.inParens, String.toList_append]
    rw [htext]
    exact ⟨_, (hls.of_suffix (List.drop_suffix n precedence)).group.of_suffix (List.nil_suffix)⟩

/-- An operand of all levels is a program of one statement. -/
theorem readText_eq (h : OperandSpelling table precedence false text node ls) (keep : Bool) :
    readText keep table (String.ofList text) = (.ok [node], table) := by
  have hlexed := h.lexed [] (by simp)
  rw [pieces_nil, ofPieces, List.append_nil, List.append_nil] at hlexed
  have hreads : Reads table (.operand precedence) (ls ++ [Lexeme.closing]) [node]
      [Lexeme.closing] :=
    h.leads.reads (operator?_eq_none rfl)
  have hrun : Run table (ls ++ [Lexeme.closing]) _ _ table [Lexeme.closing] :=
    .expression hreads .done
  refine eq_of_withoutColumns_eq_ok ?_
  rw [withoutColumns_readText (by simpa using h.unbroken), String.toList_ofList, hlexed,
    program_of_quiet h.quiet]
  exact hrun.found.program rfl keep _ [] (by simp)

end OperandSpelling

/-! ## Reading formulas -/

/-- Every formula is spelled by its text, as an operand of the level that it holds together at. -/
theorem Formula.exists_spelling (table : ProcedureTable) (formula : Formula) (touching : Bool) :
    ∃ ls, OperandSpelling table (precedence.drop formula.level) touching formula.text.toList
      formula.tree ls := by
  induction formula generalizing touching with
  | operand node isOperand => exact OperandSpelling.ofOperand isOperand
  | join operator left right ihLeft ihRight =>
    have hleft : ∃ ls, OperandSpelling table (precedence.drop operator.level) touching
        (Node.inParens (left.level < operator.level) left.text).toList left.tree ls :=
      OperandSpelling.exists_inParens (fun htight => Nat.le_of_not_lt (of_decide_eq_false htight))
        ihLeft touching
    have hright : ∃ ms, OperandSpelling table (precedence.drop (operator.level + 1)) false
        (Node.inParens (right.level ≤ operator.level) right.text).toList right.tree ms :=
      OperandSpelling.exists_inParens (fun htight => Nat.lt_of_not_le (of_decide_eq_false htight))
        ihRight false
    have htext : (join operator left right).text.toList =
        (Node.inParens (left.level < operator.level) left.text).toList ++
          ' ' :: (operator.mark.toList ++
            ' ' :: (Node.inParens (right.level ≤ operator.level) right.text).toList) := by
      simp [text, String.toList_append]
    obtain ⟨ls, hls⟩ := hleft
    obtain ⟨ms, hms⟩ := hright
    rw [htext]
    exact ⟨_, hls.join hms⟩

/-- The text of a formula is a program of one statement, the tree of the formula, and leaves the
procedure table as it is. -/
theorem formula_text_read (table : ProcedureTable) (formula : Formula) (keep : Bool) :
    readText keep table formula.text = (.ok [formula.tree], table) := by
  obtain ⟨ls, hls⟩ := formula.exists_spelling table false
  have hread := (hls.of_suffix (List.drop_suffix _ precedence)).readText_eq keep
  rwa [String.ofList_toList] at hread

example :
    Formula.text (.join .minus (.join .minus (.operand _ (.integer 7)) (.operand _ (.integer (-2))))
      (.join .minus (.operand _ (.integer (-3))) (.join .star (.operand _ (.integer 5))
        (.operand (.list []) (.list (.list nofun)))))) = "7 - -2 - (-3 - 5 * [])" := by
  decide +kernel

end Logo
