import Logo.Reader.Error
import Logo.Token.Lexer

/-!
# Lexemes

A minus sign is an operator or the sign of a number, depending on the tokens around it: it is a sign
when it touches the number behind it and not the token before it.  A lexeme is a token together
with this decision, so that readers need to look at nothing but what is still ahead.
-/

namespace Logo

/-- A token as readers see it. -/
structure Lexeme where
  token : Token
  /-- Whether the token is the sign of the number behind it. -/
  isSign : Bool
deriving DecidableEq, Repr, Inhabited

namespace Lexeme

/-- The kind of the token. -/
def kind (l : Lexeme) : TokenClass :=
  l.token.kind

/-- Whether a token ends before another one starts. -/
def apart (before after : Token) : Bool :=
  before.position.line != after.position.line || before.endColumn < after.position.column

/-- Whether the first token is a minus that touches the number behind it. -/
def touchesNumber (minus number : Token) : Bool :=
  minus.kind == .minus && number.kind == .number &&
    number.position.line == minus.position.line &&
    number.position.column == minus.position.column + 1

/-- Whether a token, between its neighbours, is the sign of a number. -/
def signs (before : Option Token) (token : Token) (after : Option Token) : Bool :=
  after.any (touchesNumber token) && before.all (apart · token)

/-- The lexemes of a token sequence, after the token `before`. -/
def ofTokensAfter (before : Option Token) : List Token → List Lexeme
  | [] => []
  | t :: ts => ⟨t, signs before t ts.head?⟩ :: ofTokensAfter (some t) ts

/-- The lexemes of a token sequence. -/
def ofTokens (ts : List Token) : List Lexeme :=
  ofTokensAfter none ts

/-- The lexemes of a text. -/
def ofText (text : String) : List Lexeme :=
  ofTokens (Token.tokenize text true)

end Lexeme

end Logo
