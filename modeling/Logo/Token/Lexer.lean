import Logo.Token.Rule

/-!
# From text to tokens

`scan` cuts a text into tokens, each at least one character long; the rules in force follow the
brackets read so far.  `tokenize` adds the closing token that every reader relies on, and can leave
out blanks and comments.  Newlines always stay, because they end the header of a definition.
-/

namespace Logo

namespace Token

/-- The number of open brackets after a token. -/
def depthAfter (depth : Nat) : TokenClass → Nat
  | .leftBracket => depth + 1
  | .rightBracket => depth - 1
  | _ => depth

/-- Cuts a text into tokens.  A token takes its first character in any case, so the rest is
shorter. -/
def scan (depth : Nat) (position : Position) (cs : List Char) : List Token :=
  match cs with
  | [] => []
  | c :: rest =>
    let (kind, length) := TokenRule.longest (TokenRule.atDepth depth) (c :: rest)
    let text := c :: rest.take (length - 1)
    { kind, text := String.ofList text, position } ::
      scan (depthAfter depth kind) (position.advance text) (rest.drop (length - 1))
termination_by cs.length
decreasing_by simp only [List.length_drop, List.length_cons]; omega

/-- A token that no reader needs. -/
def isIdle (t : Token) : Bool :=
  t.kind == .blank || t.kind == .comment

/-- The closing token: right behind the last one, on the line where that one starts. -/
def closing (tokens : List Token) : Token :=
  match tokens.getLast? with
  | some t => { kind := .eof, text := "", position := ⟨t.position.line, t.endColumn⟩ }
  | none => { kind := .eof, text := "", position := .start }

/-- The tokens of a text and the closing one; with `discard`, without blanks and comments. -/
def tokenize (text : String) (discard : Bool) : List Token :=
  let tokens := (scan 0 .start text.toList).filter fun t => !discard || !t.isIdle
  tokens ++ [closing tokens]

end Token

end Logo
