import Logo.Text.Case
import Logo.Text.HiddenData

/-!
# Quoted text

Messages show a piece of the program between double quotes.  The backslash, the double quote and
the usual controls have short escapes; a character without a glyph of its own is written by number
in hexadecimal; everything else stands for itself.
-/

namespace Logo.Text

/-- A character that cannot be shown as itself. -/
def isHidden (c : Char) : Bool :=
  inRanges hiddenRanges c.toNat

/-- The spelling of one character inside double quotes. -/
def quotedChar (c : Char) : String :=
  if c == '\x00' then "\\0"
  else if c == '\t' then "\\t"
  else if c == '\r' then "\\r"
  else if c == '\n' then "\\n"
  else if c == '\\' then "\\\\"
  else if c == '"' then "\\\""
  else if isHidden c then "\\u\x7b" ++ String.ofList (Nat.toDigits 16 c.toNat) ++ "\x7d"
  else String.singleton c

/-- The text between double quotes. -/
def quoted (s : String) : String :=
  "\"" ++ String.join (s.toList.map quotedChar) ++ "\""

end Logo.Text
