/-!
# Reading numbers

Two grammars: whole numbers (a sign and digits, within 64 bits) and decimal numbers (a sign, digits
with an optional point, an optional exponent, or one of the words for infinity and not-a-number in
any case).  Reading a decimal rounds to the nearest floating-point number.
-/

namespace Logo.Decimal

/-- The number that a run of digits writes. -/
def digitsValue (cs : List Char) : Nat :=
  cs.foldl (fun n c => 10 * n + (c.toNat - '0'.toNat)) 0

/-- Takes a sign off a text: whether it is a minus, and the rest. -/
def takeSign : List Char → Bool × List Char
  | '-' :: cs => (true, cs)
  | '+' :: cs => (false, cs)
  | cs => (false, cs)

/-- At least one digit and nothing else. -/
def isDigits (cs : List Char) : Bool :=
  !cs.isEmpty && cs.all Char.isDigit

/-- A whole number with its sign. -/
def readInt? (cs : List Char) : Option Int :=
  let (negative, digits) := takeSign cs
  if isDigits digits then
    some (if negative then -(digitsValue digits : Int) else digitsValue digits)
  else
    none

/-- The 64-bit integer of a number in range. -/
def fit? (n : Int) : Option Int64 :=
  if Int64.minValue.toInt ≤ n ∧ n ≤ Int64.maxValue.toInt then some (Int64.ofInt n) else none

/-- Reads a 64-bit integer. -/
def readInt64? (s : String) : Option Int64 :=
  readInt? s.toList >>= fit?

/-- The floating-point number nearest to `digits * 10 ^ exponent`. -/
def scientific (digits : Nat) (exponent : Int) : Float :=
  Float.ofScientific digits (exponent < 0) exponent.natAbs

/-- Reads what follows the digits: nothing, or an exponent. -/
def readExponent? : List Char → Option Int
  | [] => some 0
  | c :: cs => if c == 'e' || c == 'E' then readInt? cs else none

/-- Reads a decimal number without its sign. -/
def readMagnitude? (cs : List Char) : Option Float :=
  let whole := cs.takeWhile Char.isDigit
  let rest := cs.dropWhile Char.isDigit
  let (fraction, rest) :=
    match rest with
    | '.' :: more => (more.takeWhile Char.isDigit, more.dropWhile Char.isDigit)
    | _ => ([], rest)
  if whole.isEmpty && fraction.isEmpty then
    none
  else
    (readExponent? rest).map fun exponent =>
      scientific (digitsValue (whole ++ fraction)) (exponent - fraction.length)

/-- Reads a floating-point number without its sign. -/
def readUnsigned? (cs : List Char) : Option Float :=
  let word := String.ofList (cs.map Char.toLower)
  if word == "inf" || word == "infinity" then some (1.0 / 0.0)
  else if word == "nan" then some (0.0 / 0.0)
  else readMagnitude? cs

/-- Reads a floating-point number. -/
def readFloat? (s : String) : Option Float :=
  let (negative, cs) := takeSign s.toList
  (readUnsigned? cs).map fun x => if negative then -x else x

end Logo.Decimal
