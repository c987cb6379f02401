import Logo.Pattern
import Logo.Text.Blank
import Logo.Token

/-!
# Token rules

Each rule gives the texts of one kind of token.  Outside brackets the rules for program text hold;
inside brackets a text is cut into words and brackets only.  Of the rules that match, the one with
the longest match wins, and of equally long ones the first in the list: this is how the keywords
stand before the symbols.
-/

namespace Logo

/-- The texts of one kind of token. -/
structure TokenRule where
  kind : TokenClass
  pattern : Pattern

namespace TokenRule

open Pattern

/-- A letter in either case.  The long s counts as a spelling of `s`. -/
def eitherCase (letter : Char) : Pattern :=
  one fun c => c.toLower == letter || (letter == 's' && c == 'ſ')

/-- A keyword in any mixture of cases. -/
def keyword : List Char → Pattern
  | [] => empty
  | [c] => eitherCase c
  | c :: cs => seq (eitherCase c) (keyword cs)

/-- A character that may start a symbol. -/
def startsSymbol (c : Char) : Bool :=
  c.isAlpha || c == '_' || c == '?' || c == '.'

/-- A character that may stand inside a symbol. -/
def insideSymbol (c : Char) : Bool :=
  startsSymbol c || c.isDigit || c == '!'

/-- A character that ends every word of a program: a blank, a bracket or a parenthesis. -/
def endsWord (c : Char) : Bool :=
  Text.isBlank c || c == '[' || c == ']' || c == '(' || c == ')'

/-- A character that ends the name of a reference. -/
def endsReference (c : Char) : Bool :=
  endsWord c || c == '+' || c == '-' || c == '*' || c == '/' || c == '=' || c == '<' ||
    c == '>' || c == '!'

/-- A character that ends a word inside brackets. -/
def endsListWord (c : Char) : Bool :=
  Text.isBlank c || c == '[' || c == ']'

/-- The rules for program text. -/
def code : List TokenRule := [
  ⟨.toWord, keyword ['t', 'o']⟩,
  ⟨.endWord, keyword ['e', 'n', 'd']⟩,
  ⟨.trueWord, keyword ['t', 'r', 'u', 'e']⟩,
  ⟨.falseWord, keyword ['f', 'a', 'l', 's', 'e']⟩,
  ⟨.nilWord, keyword ['n', 'i', 'l']⟩,
  ⟨.number, seq (oneOrMore Char.isDigit)
    (optional (seq (one (· == '.')) (oneOrMore Char.isDigit)))⟩,
  ⟨.symbol, seq (one startsSymbol) (many (one insideSymbol))⟩,
  ⟨.quote, seq (one (· == '"')) (many (one (!endsWord ·)))⟩,
  ⟨.reference, seq (one (· == ':')) (oneOrMore (!endsReference ·))⟩,
  ⟨.leftBracket, text ['[']⟩,
  ⟨.rightBracket, text [']']⟩,
  ⟨.leftParen, text ['(']⟩,
  ⟨.rightParen, text [')']⟩,
  ⟨.plus, text ['+']⟩,
  ⟨.minus, text ['-']⟩,
  ⟨.star, text ['*']⟩,
  ⟨.slash, text ['/']⟩,
  ⟨.equalEqual, text ['=', '=']⟩,
  ⟨.equal, text ['=']⟩,
  ⟨.bangEqual, text ['!', '=']⟩,
  ⟨.lessEqual, text ['<', '=']⟩,
  ⟨.greaterEqual, text ['>', '=']⟩,
  ⟨.less, text ['<']⟩,
  ⟨.greater, text ['>']⟩,
  ⟨.newline, seq (optional (one (· == '\r'))) (one (· == '\n'))⟩,
  ⟨.comment, seq (one (· == ';')) (many (one (· != '\n')))⟩,
  ⟨.blank, oneOrMore fun c => c == ' ' || c == '\t' || c == '\r'⟩,
  ⟨.stray, one (· != '\n')⟩]

/-- The rules inside brackets. -/
def list : List TokenRule := [
  ⟨.leftBracket, text ['[']⟩,
  ⟨.rightBracket, text [']']⟩,
  ⟨.blank, oneOrMore Text.isBlank⟩,
  ⟨.symbol, oneOrMore (!endsListWord ·)⟩]

/-- The rules in force below a number of open brackets. -/
def atDepth (depth : Nat) : List TokenRule :=
  if depth = 0 then code else list

/-- The kind and the length of the longest match, the first rule winning a tie.  Where no rule
matches, a stray token of length zero. -/
def longest (rules : List TokenRule) (cs : List Char) : TokenClass × Nat :=
  rules.foldl
    (fun best rule =>
      let n := rule.pattern.munch cs
      if best.2 < n then (rule.kind, n) else best)
    (.stray, 0)

end TokenRule

end Logo
