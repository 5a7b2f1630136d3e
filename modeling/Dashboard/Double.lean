/-!
# Arithmetic on Doubles

The operations of formulas that core does not have or leaves open: a remainder, a power
with the dashboard's rules for undefined cases, a sign that keeps zeros, and a cube root.

The remainder is exact. Both operands are brought to a common exponent, where they are
natural numbers, and the remainder of those has at most as many bits as the smaller
operand, so it is again a double.

The cube root is computed in doubles with less than a unit in the last place of error, and
its last digit is part of what a dashboard shows, so the steps are fixed here: a guess from
a third of the exponent, a polynomial that improves it to 23 bits, a rounding to 26 bits so
that its square is exact, and one step of iteration.
-/

namespace Dashboard.Double

/-- The value of an undefined operation. -/
def undefined : Float := 0.0 / 0.0

/-- The double nearest to `mantissa * 2 ^ exponent` with the given sign. -/
def ofParts (sign : Float.Model.UnpackedFloat.Sign) (mantissa : Nat) (exponent : Int) : Float :=
  .ofModel (.pack (.round .binary64 sign mantissa exponent))

/-- The remainder of a division that truncates: it has the sign of the dividend and is
smaller than the divisor. -/
def remainder (x y : Float) : Float :=
  match x.toModel.unpack, y.toModel.unpack with
  | .finite sign m e _, .finite _ n f _ =>
    let common := min e f
    ofParts sign ((m * Nat.pow 2 (e - common).toNat) % (n * Nat.pow 2 (f - common).toNat)) common
  | .finite .., .infinity _ => x
  | .zero _, .finite .. => x
  | .zero _, .infinity _ => x
  | _, _ => undefined

/-- A power. An undefined exponent, and one or minus one to an infinite power, give an
undefined result. -/
def power (base exponent : Float) : Float :=
  if exponent.isNaN || (base.abs == 1.0 && exponent.isInf) then undefined
  else base.pow exponent

/-- One with the sign of a number; a zero and an undefined value are kept. -/
def sign (x : Float) : Float :=
  if x.isNaN || x == 0.0 then x
  else if x > 0.0 then 1.0
  else -1.0

/-! ### Cube root -/

/-- The sign bit of a double. -/
def signBit : UInt64 := 0x8000000000000000

/-- The upper half of the bits of a double without its sign. -/
def upperHalf (x : Float) : UInt64 :=
  x.abs.toBits >>> 32

/-- A third of an exponent, written over the bits of a double; the sign is kept. -/
def withUpperHalf (x : Float) (upper : UInt64) : Float :=
  .ofBits ((x.toBits &&& signBit) ||| (upper <<< 32))

/-- A guess at the cube root to five bits: the exponent is divided by three. A number too
small for a full mantissa is scaled up first. -/
def cubeRootGuess (x : Float) : Float :=
  if upperHalf x < 0x00100000 then
    let scaled := x * 18014398509481984.0
    withUpperHalf scaled (upperHalf scaled / 3 + 696219795)
  else withUpperHalf x (upperHalf x / 3 + 715094163)

/-- A guess improved to 23 bits. -/
def cubeRootImproved (x guess : Float) : Float :=
  let r := (guess * guess) * (guess / x)
  guess * ((1.87595182427177009643 + r * (-1.88497979543377169875 + r * 1.621429720105354466140))
    + ((r * r) * r) * (-0.758397934778766047437 + r * 0.145996192886612446982))

/-- A double with only the upper 26 bits of its mantissa, rounded. -/
def rounded26 (x : Float) : Float :=
  .ofBits ((x.toBits + 0x80000000) &&& 0xffffffffc0000000)

/-- The cube root. -/
def cubeRoot (x : Float) : Float :=
  if x.isNaN || x.isInf || x == 0.0 then x
  else
    let t := rounded26 (cubeRootImproved x (cubeRootGuess x))
    let r := x / (t * t)
    t + t * ((r - t) / ((t + t) + r))

/-! ### Angles -/

/-- The number of degrees in one radian. -/
def degreesPerRadian : Float := 57.2957795130823208767981548141051703

/-- The number of radians in one degree. -/
def radiansPerDegree : Float := 3.14159265358979323846264338327950288 / 180.0

end Dashboard.Double
