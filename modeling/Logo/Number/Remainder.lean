/-!
# The remainder of floating-point numbers

The remainder of a division with a whole quotient cut off toward zero.  It is exact: on a common
binary exponent it is the remainder of two natural numbers.
-/

namespace Logo.Number

open Float.Model (UnpackedFloat)

/-- The floating-point number nearest to `m * 2 ^ q`, with a sign of its own for zero. -/
def ofBinary (sign : UnpackedFloat.Sign) (m : Nat) (q : Int) : Float :=
  Float.ofModel <| Float.Model.pack <|
    if m = 0 then .zero sign else UnpackedFloat.round .binary64 sign m q

/-- The remainder of `x` by `y` with the sign of `x`. -/
def remainder (x y : Float) : Float :=
  match x.toModel.unpack, y.toModel.unpack with
  | .notANumber, _ => 0.0 / 0.0
  | _, .notANumber => 0.0 / 0.0
  | .infinity _, _ => 0.0 / 0.0
  | _, .zero _ => 0.0 / 0.0
  | .zero _, _ => x
  | _, .infinity _ => x
  | .finite sign m q _, .finite _ n r _ =>
    let least := min q r
    ofBinary sign ((m * Nat.pow 2 (q - least).toNat) % (n * Nat.pow 2 (r - least).toNat)) least

end Logo.Number
