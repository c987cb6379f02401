/-!
# The shortest decimal of a binary fraction

A binary fraction `m * 2 ^ q` stands for every real number that rounds to it.  Of the decimals in
that band the shortest is chosen: the coarsest grid of decimal places that has a point in the band
wins, of two points the nearer, and of two equally near ones the upper.  All arithmetic is exact.
-/

namespace Logo.Decimal

/-- The real numbers that round to one binary fraction, over a common denominator. -/
structure Band where
  low : Nat
  value : Nat
  high : Nat
  denominator : Nat
  /-- Whether the ends round to the fraction too. -/
  closed : Bool

/-- The band of `m * 2 ^ q`.  Below a power of two the neighbours are twice as close; `least` is the
exponent of the smallest fractions, which are evenly spaced. -/
def Band.ofBinary (m : Nat) (q : Int) (precision : Nat) (least : Int) : Band :=
  let scale := Nat.pow 2 q.toNat
  let narrow := m == Nat.pow 2 (precision - 1) && least < q
  { low := (if narrow then 4 * m - 1 else 4 * m - 2) * scale
    value := 4 * m * scale
    high := (4 * m + 2) * scale
    denominator := 4 * Nat.pow 2 (-q).toNat
    closed := m % 2 == 0 }

/-- Whether `x / d` lies between the scaled ends of the band. -/
def Band.holds (b : Band) (scale x d : Nat) : Bool :=
  if b.closed then b.low * scale ≤ x * d && x * d ≤ b.high * scale
  else b.low * scale < x * d && x * d < b.high * scale

/-- The multiple of `10 ^ place` in the band that is nearest to its value. -/
def Band.atPlace? (b : Band) (place : Int) : Option Nat :=
  let scale := Nat.pow 10 (-place).toNat
  let d := b.denominator * Nat.pow 10 place.toNat
  let below := b.value * scale / d
  let rest := b.value * scale % d
  match b.holds scale below d, b.holds scale (below + 1) d with
  | true, true => if 2 * rest < d then some below else some (below + 1)
  | true, false => some below
  | false, true => some (below + 1)
  | false, false => none

/-- Tries one place after the other, downwards. -/
def Band.search (b : Band) : Nat → Int → Nat × Int
  | 0, place => (b.value * Nat.pow 10 (-place).toNat / b.denominator, place)
  | n + 1, place =>
    match b.atPlace? place with
    | some digits => (digits, place)
    | none => b.search n (place - 1)

/-- The shortest decimal `digits * 10 ^ place` in the band.  The search starts above the first digit
and ends at the latest where the grid is finer than the band. -/
def Band.shortest (b : Band) : Nat × Int :=
  b.search (b.denominator.log2 + 20) (Nat.toDigits 10 (b.value / b.denominator)).length

end Logo.Decimal
