import Logo.Decimal.Read
import Logo.Number.Remainder

/-!
# Numbers

Arithmetic stays among the 64-bit integers as long as the exact result is one; otherwise it goes on
with floating-point numbers.  Comparison is always between floating-point numbers.
-/

namespace Logo

/-- A numeric value. -/
inductive Number where
  | integer (value : Int64)
  | float (value : Float)

namespace Number

/-- The number as a floating-point number, rounded to the nearest. -/
def toFloat : Number → Float
  | integer value => Float.ofInt value.toInt
  | float value => value

/-- Reads the text of a word: a whole number if it is one, otherwise a decimal number. -/
def ofText? (s : String) : Option Number :=
  match Decimal.readInt64? s with
  | some value => some (integer value)
  | none => (Decimal.readFloat? s).map float

/-- The exact result where both numbers are integers and it is a 64-bit integer, otherwise the
floating-point result. -/
def combine (exact : Int → Int → Option Int) (approximate : Float → Float → Float)
    (a b : Number) : Number :=
  let exactly : Option Int64 :=
    match a, b with
    | integer x, integer y => exact x.toInt y.toInt >>= Decimal.fit?
    | _, _ => none
  match exactly with
  | some value => integer value
  | none => float (approximate a.toFloat b.toFloat)

/-- The sum. -/
def add : Number → Number → Number :=
  combine (fun x y => some (x + y)) (· + ·)

/-- The difference. -/
def sub : Number → Number → Number :=
  combine (fun x y => some (x - y)) (· - ·)

/-- The product. -/
def mul : Number → Number → Number :=
  combine (fun x y => some (x * y)) (· * ·)

/-- Whether the number counts as zero. -/
def isZero (a : Number) : Bool :=
  a.toFloat == 0.0

/-- The quotient, none for a zero divisor.  It is an integer only where the division leaves no
rest. -/
def div? (a b : Number) : Option Number :=
  if b.isZero then none
  else some (combine (fun x y => if x.tmod y = 0 then some (x.tdiv y) else none) (· / ·) a b)

/-- The remainder with the sign of the dividend, none for a zero divisor.  It is an integer only
where the whole part of the quotient is a 64-bit integer. -/
def mod? (a b : Number) : Option Number :=
  if b.isZero then none
  else some (combine (fun x y => (Decimal.fit? (x.tdiv y)).map fun _ => x.tmod y) remainder a b)

/-- The number with the other sign. -/
def neg : Number → Number
  | integer value =>
    match Decimal.fit? (-value.toInt) with
    | some negated => integer negated
    | none => float (-(integer value).toFloat)
  | float value => float (-value)

/-- The number without its sign. -/
def abs : Number → Number
  | integer value =>
    match Decimal.fit? value.toInt.natAbs with
    | some magnitude => integer magnitude
    | none => float (integer value).toFloat.abs
  | float value => float value.abs

end Number

end Logo
