import Dashboard.Text.Letter

/-!
# Decimal Literals

A decimal literal is an optional sign, digits with at most one point among or around them
and at least one digit, and an optional exponent. Its value is the double nearest to the
number it denotes, ties to the even neighbour; core's reader of scientific notation gives
exactly that double.

Two readers are built on it. `ofLiteral?` takes literals alone. `ofText?` also takes the
words for the values that have no digits (`inf`, `infinity` and `nan` in any mixture of
cases).
-/

namespace Dashboard.Decimal

/-- A decimal literal: `digits * 10 ^ exponent`, negated if asked. -/
structure Literal where
  negative : Bool
  digits : Nat
  exponent : Int
  deriving DecidableEq, Repr

/-- The double nearest to the number a literal denotes. -/
def Literal.toDouble (l : Literal) : Float :=
  let magnitude := Float.ofScientific l.digits (l.exponent < 0) l.exponent.natAbs
  if l.negative then -magnitude else magnitude

/-- The number that a run of digits denotes. -/
def natOfDigits (digits : List Char) : Nat :=
  digits.foldl (fun n c => 10 * n + (c.toNat - '0'.toNat)) 0

/-- Takes an optional sign off a text and tells whether it was a minus sign. -/
def takeSign : List Char → Bool × List Char
  | '-' :: rest => (true, rest)
  | '+' :: rest => (false, rest)
  | text => (false, text)

/-- The digits in front of the point, those behind it, and what follows. -/
def takeDigits (text : List Char) : List Char × List Char × List Char :=
  let whole := text.takeWhile Text.isDigit
  match text.dropWhile Text.isDigit with
  | '.' :: rest => (whole, rest.takeWhile Text.isDigit, rest.dropWhile Text.isDigit)
  | rest => (whole, [], rest)

/-- The exponent that ends a literal: nothing, or the letter `e`, an optional sign and at
least one digit. -/
def takeExponent? : List Char → Option Int
  | [] => some 0
  | c :: rest =>
    if c = 'e' ∨ c = 'E' then
      let (negative, digits) := takeSign rest
      if digits.isEmpty || !digits.all Text.isDigit then none
      else
        let n : Int := natOfDigits digits
        some (if negative then -n else n)
    else none

/-- The literal that a whole text spells. -/
def literal? (text : List Char) : Option Literal :=
  let (negative, unsigned) := takeSign text
  let (whole, fraction, rest) := takeDigits unsigned
  if whole.isEmpty && fraction.isEmpty then none
  else (takeExponent? rest).map fun exponent =>
    { negative, digits := natOfDigits (whole ++ fraction), exponent := exponent - fraction.length }

/-- The double that a decimal literal spells. -/
def ofLiteral? (text : List Char) : Option Float :=
  (literal? text).map Literal.toDouble

/-- The double that a word spells. -/
def ofWord? (word : List Char) : Option Float :=
  let lower := word.map Char.toLower
  if lower = "inf".toList ∨ lower = "infinity".toList then some (1.0 / 0.0)
  else if lower = "nan".toList then some (0.0 / 0.0)
  else none

/-- The double that a literal or a word spells, the word with an optional sign. -/
def ofText? (text : List Char) : Option Float :=
  let (negative, unsigned) := takeSign text
  match ofWord? unsigned with
  | some x => some (if negative then -x else x)
  | none => ofLiteral? text

end Dashboard.Decimal
