import Dashboard.Decimal.Layout
import Dashboard.Decimal.Literal
import Dashboard.Double
import Dashboard.Text.Blank

/-!
# Scalars and Values

A scalar is what a data source delivers: a number, a boolean or a text. A value is what a
formula evaluates to: a scalar, `null` for the missing branch of a conditional, or
`undefined` where nothing is known.

This module is the single place where values are coerced. Arithmetic reads every value as
a number, joining reads it as a text, conditions read it as a truth value, and equality
coerces nothing.
-/

namespace Dashboard

/-- What a data source delivers. -/
inductive Scalar where
  | number (x : Float)
  | boolean (b : Bool)
  | text (s : String)
  deriving BEq

/-- What a formula evaluates to. -/
inductive Value where
  | undefined
  | null
  | boolean (b : Bool)
  | number (x : Float)
  | text (s : String)
  deriving BEq

instance : Inhabited Value := ⟨.undefined⟩

/-- A number as a dashboard shows it. -/
def showNumber (x : Float) : String :=
  Decimal.Layout.host.render x

/-- A truth value as a dashboard shows it. -/
def showBoolean : Bool → String
  | true => "true"
  | false => "false"

/-- A scalar as a dashboard shows it. -/
def Scalar.display : Scalar → String
  | .number x => showNumber x
  | .boolean b => showBoolean b
  | .text s => s

/-! ### Numeric texts -/

/-- The value of a hexadecimal digit. -/
def hexDigit? (c : Char) : Option Nat :=
  if '0' ≤ c ∧ c ≤ '9' then some (c.toNat - '0'.toNat)
  else if 'a' ≤ c ∧ c ≤ 'f' then some (c.toNat - 'a'.toNat + 10)
  else if 'A' ≤ c ∧ c ≤ 'F' then some (c.toNat - 'A'.toNat + 10)
  else none

/-- The number that hexadecimal digits denote: at least one digit, nothing else. -/
def natOfHex? (digits : List Char) : Option Nat :=
  if digits.isEmpty then none
  else digits.foldlM (fun n c => (hexDigit? c).map (16 * n + ·)) 0

/-- The number behind a hexadecimal mark. A plus sign may stand between the mark and the
digits, and the number must fit in 64 bits. -/
def hexNumber (text : List Char) : Float :=
  let digits := match text with
    | '+' :: rest => rest
    | rest => rest
  match natOfHex? digits with
  | some n => if n < UInt64.size then Float.ofNat n else Double.undefined
  | none => Double.undefined

/-- The number that a text stands for in arithmetic: zero for a blank text, the signed
words for infinity, a hexadecimal number behind `0x`, a decimal literal, and undefined for
everything else. Blanks around it are ignored. -/
def numericText (text : String) : Float :=
  match Text.trim text.toList with
  | [] => 0.0
  | '0' :: 'x' :: digits => hexNumber digits
  | '0' :: 'X' :: digits => hexNumber digits
  | trimmed =>
    if trimmed = "Infinity".toList ∨ trimmed = "+Infinity".toList then 1.0 / 0.0
    else if trimmed = "-Infinity".toList then -1.0 / 0.0
    else (Decimal.ofLiteral? trimmed).getD Double.undefined

/-! ### Coercions -/

namespace Value

/-- The value of a scalar. -/
def ofScalar : Scalar → Value
  | .number x => .number x
  | .boolean b => .boolean b
  | .text s => .text s

/-- The scalar of a value that has one. -/
def toScalar? : Value → Option Scalar
  | .undefined | .null => none
  | .boolean b => some (.boolean b)
  | .number x => some (.number x)
  | .text s => some (.text s)

/-- Nothing is known about this value. -/
def isUndefined : Value → Bool
  | .undefined => true
  | _ => false

/-- The value of a missing branch. -/
def isNull : Value → Bool
  | .null => true
  | _ => false

/-- The number, if the value is one; nothing is coerced. -/
def asNumber? : Value → Option Float
  | .number x => some x
  | _ => none

/-- The value as a condition. Zero, undefined numbers, the empty text, `null` and
`undefined` count as false. -/
def truthy : Value → Bool
  | .undefined | .null => false
  | .boolean b => b
  | .number x => x != 0.0 && !x.isNaN
  | .text s => !s.isEmpty

/-- The value as an operand of arithmetic. -/
def toNumber : Value → Float
  | .undefined => Double.undefined
  | .null => 0.0
  | .boolean true => 1.0
  | .boolean false => 0.0
  | .number x => x
  | .text s => numericText s

/-- The value as a dashboard shows it, and as it is joined to a text. -/
def display : Value → String
  | .undefined => "undefined"
  | .null => "null"
  | .boolean b => showBoolean b
  | .number x => showNumber x
  | .text s => s

/-- The value is a text. -/
def isText : Value → Bool
  | .text _ => true
  | _ => false

/-- Equality without coercion: values of different kinds are never equal, and numbers
compare as numbers, so an undefined number differs from itself. -/
def strictEq : Value → Value → Bool
  | .undefined, .undefined => true
  | .null, .null => true
  | .boolean a, .boolean b => a == b
  | .number a, .number b => a == b
  | .text a, .text b => a == b
  | _, _ => false

/-- The order of two values: texts by their characters, everything else as numbers, where
an undefined number is not ordered at all. -/
def compare? : Value → Value → Option Ordering
  | .text a, .text b => some (compare a b)
  | a, b =>
    let x := a.toNumber
    let y := b.toNumber
    if x < y then some .lt
    else if x > y then some .gt
    else if x == y then some .eq
    else none

end Value

end Dashboard
