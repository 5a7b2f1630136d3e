import Dashboard.Decimal.Shortest

/-!
# Layouts of a Number

How the digits of a double are laid out as text depends on who reads it. A layout fixes
the spelling of the values that have no digits, whether a whole number keeps a point, for
which magnitudes the digits are written out positionally instead of with an exponent, and
which of two equally near shortest decimals is taken.

## The layouts in use

* `host` — what a dashboard shows: no sign on a zero, `Infinity` spelled out.
* `diagnostic` — what messages about a formula show: `inf`, and the sign of a zero.
* `exact` — tells all doubles apart that compare differently, and the two zeros.
* `json` — whole numbers keep `.0`, very large and very small ones get an exponent, and
  ties between decimals go to even instead of up.
-/

namespace Dashboard.Decimal

/-- How a double is written. -/
structure Layout where
  /-- The word for positive infinity. -/
  infinity : String
  /-- Whether a negative zero keeps its sign. -/
  signedZero : Bool
  /-- Whether a whole number is written with a point and a zero. -/
  pointZero : Bool
  /-- The powers of ten of the leading digit for which no exponent is used; all of them
  if there is no bound. -/
  positional : Option (Int × Int)
  /-- Which of two equally near shortest decimals is written. -/
  tie : Tie

namespace Layout

/-- What a dashboard shows. -/
def host : Layout := ⟨"Infinity", false, false, none, .up⟩

/-- What messages about a formula show. -/
def diagnostic : Layout := ⟨"inf", true, false, none, .up⟩

/-- All doubles that can be told apart. -/
def exact : Layout := ⟨"Infinity", true, false, none, .up⟩

/-- Numbers of a JSON text. -/
def json : Layout := ⟨"null", true, true, some (-5, 15), .even⟩

end Layout

/-- A run of zeros. -/
def zeros (n : Nat) : List Char :=
  List.replicate n '0'

/-- The digits written out around a point. -/
def Digits.positional (d : Digits) (pointZero : Bool) : List Char :=
  let text := Nat.toDigits 10 d.digits
  if 0 ≤ d.exponent then
    text ++ zeros d.exponent.toNat ++ (if pointZero then ['.', '0'] else [])
  else
    let fraction := (-d.exponent).toNat
    let padded := zeros (fraction + 1 - text.length) ++ text
    padded.take (padded.length - fraction) ++ '.' :: padded.drop (padded.length - fraction)

/-- One digit, the others behind a point, and a signed exponent. -/
def Digits.scientific (d : Digits) : List Char :=
  let text := Nat.toDigits 10 d.digits
  let exponent := d.exponent + (text.length - 1 : Nat)
  let mantissa := match text with
    | first :: second :: rest => first :: '.' :: second :: rest
    | short => short
  mantissa ++ 'e' :: (if exponent < 0 then '-' else '+') :: Nat.toDigits 10 exponent.natAbs

/-- The power of ten of the leading digit. -/
def Digits.leading (d : Digits) : Int :=
  d.exponent + (digitCount d.digits - 1 : Nat)

/-- The text of a positive number. -/
def Layout.magnitude (layout : Layout) (d : Digits) : List Char :=
  match layout.positional with
  | none => d.positional layout.pointZero
  | some (low, high) =>
    if low ≤ d.leading ∧ d.leading ≤ high then d.positional layout.pointZero else d.scientific

/-- The text of a double. -/
def Layout.render (layout : Layout) (x : Float) : String :=
  match x.toModel.unpack with
  | .notANumber => "NaN"
  | .infinity .positive => layout.infinity
  | .infinity .negative => "-" ++ layout.infinity
  | .zero sign =>
    let text := if layout.pointZero then "0.0" else "0"
    match sign with
    | .positive => text
    | .negative => if layout.signedZero then "-" ++ text else text
  | .finite sign mantissa exponent _ =>
    let digits := Dyadic.shortest ⟨mantissa, exponent⟩ layout.tie
    let text := String.ofList (layout.magnitude digits)
    match sign with
    | .positive => text
    | .negative => "-" ++ text

end Dashboard.Decimal
