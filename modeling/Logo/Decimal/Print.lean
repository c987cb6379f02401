import Logo.Decimal.Shortest

/-!
# Floating-point numbers in decimal

A number without a fraction is written out in full and keeps a `.0`, so that it is read back as a
floating-point number; any other number is written with the fewest digits that read back as it.
Exponents are never written.
-/

namespace Logo.Decimal

open Float.Model (UnpackedFloat)

/-- The mark of a sign. -/
def signText : UnpackedFloat.Sign → String
  | .negative => "-"
  | .positive => ""

/-- `digits` with a decimal point before the last `places` digits. -/
def withPoint (digits places : Nat) : String :=
  let ds := Nat.toDigits 10 digits
  let padded := List.replicate (places + 1 - ds.length) '0' ++ ds
  let (whole, fraction) := padded.splitAt (padded.length - places)
  String.ofList (whole ++ '.' :: fraction)

/-- The text of the positive number `m * 2 ^ q`. -/
def magnitudeText (m : Nat) (q : Int) : String :=
  let den := Nat.pow 2 (-q).toNat
  if m % den == 0 then
    toString (m / den * Nat.pow 2 q.toNat) ++ ".0"
  else
    let (digits, place) := (Band.ofBinary m q 53 (-1074)).shortest
    withPoint digits (-place).toNat

/-- The text of a floating-point number. -/
def floatText (x : Float) : String :=
  match x.toModel.unpack with
  | .notANumber => "NaN"
  | .infinity s => signText s ++ "inf"
  | .zero s => signText s ++ "0.0"
  | .finite s m q _ => signText s ++ magnitudeText m q

end Logo.Decimal
