/-!
# Tokens

The vocabulary of a program text.  A token keeps the characters it covers and where they start: the
line counts from one, the column counts the bytes of the text since the start of that line.
-/

namespace Logo

/-- The kinds of tokens. -/
inductive TokenClass where
  | toWord
  | endWord
  | trueWord
  | falseWord
  | nilWord
  | number
  | symbol
  | quote
  | reference
  | leftBracket
  | rightBracket
  | leftParen
  | rightParen
  | plus
  | minus
  | star
  | slash
  | equal
  | equalEqual
  | bangEqual
  | less
  | greater
  | lessEqual
  | greaterEqual
  | newline
  | comment
  | blank
  | stray
  | eof
deriving DecidableEq, Repr, Inhabited

/-- The name by which messages call a kind of token. -/
def TokenClass.name : TokenClass → String
  | toWord => "To"
  | endWord => "End"
  | trueWord => "True"
  | falseWord => "False"
  | nilWord => "Nil"
  | number => "Number"
  | symbol => "Symbol"
  | quote => "Quote"
  | reference => "Reference"
  | leftBracket => "LeftBracket"
  | rightBracket => "RightBracket"
  | leftParen => "LeftParen"
  | rightParen => "RightParen"
  | plus => "Plus"
  | minus => "Minus"
  | star => "Star"
  | slash => "Slash"
  | equal => "Equal"
  | equalEqual => "EqualEqual"
  | bangEqual => "BangEqual"
  | less => "Less"
  | greater => "Greater"
  | lessEqual => "LessEqual"
  | greaterEqual => "GreaterEqual"
  | newline => "Newline"
  | comment => "Comment"
  | blank => "Whitespace"
  | stray => "Error"
  | eof => "Eof"

/-- A place in a text. -/
structure Position where
  /-- Counted from one. -/
  line : Nat
  /-- Bytes since the start of the line. -/
  column : Nat
deriving DecidableEq, Repr, Inhabited

namespace Position

/-- Where a text starts. -/
def start : Position := ⟨1, 0⟩

/-- The place after one character. -/
def next (p : Position) (c : Char) : Position :=
  if c = '\n' then ⟨p.line + 1, 0⟩ else ⟨p.line, p.column + c.utf8Size⟩

/-- The place after a run of characters. -/
def advance (p : Position) (cs : List Char) : Position :=
  cs.foldl next p

end Position

/-- A piece of a program text. -/
structure Token where
  kind : TokenClass
  text : String
  position : Position
deriving DecidableEq, Repr, Inhabited

namespace Token

/-- The column right after the token, were it on one line. -/
def endColumn (t : Token) : Nat :=
  t.position.column + t.text.utf8ByteSize

/-- The text without the mark it starts with: the word of a quote, the name of a reference. -/
def unmarked (t : Token) : String :=
  String.ofList t.text.toList.tail

end Token

end Logo
