import Dashboard.Decimal.Literal
import Dashboard.Document
import Dashboard.Value

/-!
# Reading JSON

A JSON text is a single value with blanks around it. A number without a point and an
exponent is whole if 64 bits hold it, with or without a sign; every other number, minus
zero included, is the nearest double.

A character outside of the first plane is written with two escapes, one for each half of
it. Half of a pair may stand alone in a text, but then the text is broken, and so is a
table with such a name.

The reader works on the list of characters that are left. Values nest, so its functions
share one fuel, which every call takes one of; twice the length of the text is enough,
because of any two calls in a row at least one takes a character.

## Main results

* `joined?_chars` — characters that are no halves are joined to themselves.
-/

namespace Dashboard.Json

/-- A blank of JSON; there are only four. -/
def isBlank (c : Char) : Bool :=
  c == ' ' || c == '\t' || c == '\n' || c == '\r'

/-- Drops the blanks in front of a text. -/
def skipBlanks (text : List Char) : List Char :=
  text.dropWhile isBlank

/-! ### Texts -/

/-- The number that four hexadecimal digits denote. -/
def hexCode? (a b c d : Char) : Option Nat :=
  natOfHex? [a, b, c, d]

/-- The character that an escape of one letter stands for. -/
def unescape? : Char → Option Char
  | '"' => some '"'
  | '\\' => some '\\'
  | '/' => some '/'
  | 'b' => some '\x08'
  | 'f' => some '\x0c'
  | 'n' => some '\n'
  | 'r' => some '\r'
  | 't' => some '\t'
  | _ => none

/-- The character of a pair of code units. -/
def pair? (high low : Nat) : Option Char :=
  if 0xD800 ≤ high ∧ high ≤ 0xDBFF ∧ 0xDC00 ≤ low ∧ low ≤ 0xDFFF then
    some (Char.ofNat (0x10000 + (high - 0xD800) * 0x400 + (low - 0xDC00)))
  else none

/-- A part of a text: a character, or a code unit that needs a second one. -/
inductive Piece where
  | char (c : Char)
  | half (code : Nat)
  deriving DecidableEq, Repr

/-- The part of a text that a code unit is. -/
def Piece.ofCode (code : Nat) : Piece :=
  if 0xD800 ≤ code ∧ code ≤ 0xDFFF then .half code else .char (Char.ofNat code)

/-- The parts of a text up to its closing quote, and what follows it. -/
def textBody : List Char → Option (List Piece × List Char)
  | '"' :: rest => some ([], rest)
  | '\\' :: 'u' :: a :: b :: c :: d :: rest => do
    let code ← hexCode? a b c d
    let (pieces, rest) ← textBody rest
    return (.ofCode code :: pieces, rest)
  | '\\' :: c :: rest => do
    let char ← unescape? c
    let (pieces, rest) ← textBody rest
    return (.char char :: pieces, rest)
  | c :: rest =>
    if c.toNat < 0x20 then none
    else do
      let (pieces, rest) ← textBody rest
      return (.char c :: pieces, rest)
  | [] => none

/-- The characters of a text, if every half in it stands in a pair. -/
def joined? : List Piece → Option (List Char)
  | [] => some []
  | .char c :: rest => do
    return c :: (← joined? rest)
  | .half high :: .half low :: rest => do
    return (← pair? high low) :: (← joined? rest)
  | .half _ :: _ => none

/-- Characters that are no halves are joined to themselves. -/
theorem joined?_chars {chars : List Char} : joined? (chars.map .char) = some chars := by
  induction chars with
  | nil => rfl
  | cons c rest ih => simp [joined?, ih]

/-- The text with the given parts. -/
def text? (pieces : List Piece) : Option String :=
  (joined? pieces).map String.ofList

/-- A text, broken if half of a pair is left alone in it. -/
def textOf (pieces : List Piece) : Document :=
  match text? pieces with
  | some s => .text s
  | none => .broken

/-- A table, broken if one of its names is. -/
def tableOf (fields : List (List Piece × Document)) : Document :=
  match fields.mapM fun (name, d) => (text? name).map fun name => (name, d) with
  | some fields => .table fields
  | none => .broken

/-! ### Numbers -/

/-- The characters of a number and what follows it. A number does not begin with a zero
unless that is its whole part, and has a digit wherever one is due. -/
def numberBody? (text : List Char) : Option (List Char × List Char) :=
  let (sign, unsigned) := match text with
    | '-' :: rest => (['-'], rest)
    | _ => ([], text)
  let whole := unsigned.takeWhile Char.isDigit
  if whole.isEmpty || (whole.head? == some '0' && whole.length != 1) then none
  else do
    let (fraction, rest) ← match unsigned.dropWhile Char.isDigit with
      | '.' :: rest =>
        let digits := rest.takeWhile Char.isDigit
        if digits.isEmpty then none else some ('.' :: digits, rest.dropWhile Char.isDigit)
      | rest => some ([], rest)
    let (exponent, rest) ← match rest with
      | c :: more =>
        if c = 'e' ∨ c = 'E' then
          let (mark, more) := match more with
            | '+' :: more => (['+'], more)
            | '-' :: more => (['-'], more)
            | more => ([], more)
          let digits := more.takeWhile Char.isDigit
          if digits.isEmpty then none
          else some (c :: mark ++ digits, more.dropWhile Char.isDigit)
        else some ([], rest)
      | [] => some ([], rest)
    return (sign ++ whole ++ fraction ++ exponent, rest)

/-- The number that its characters denote. -/
def number? (body : List Char) : Option Document :=
  let (negative, unsigned) := Decimal.takeSign body
  if unsigned.all Char.isDigit then
    let n := Decimal.natOfDigits unsigned
    if negative then
      if 0 < n ∧ Int64.minValue.toInt ≤ -n then some (.integer (-n))
      else (Decimal.ofLiteral? body).map .real
    else if n < UInt64.size then some (.integer n)
    else (Decimal.ofLiteral? body).map .real
  else (Decimal.ofLiteral? body).map .real

/-! ### Values -/

mutual

/-- A value and what follows it. -/
def value : Nat → List Char → Option (Document × List Char)
  | 0, _ => none
  | fuel + 1, text =>
    match skipBlanks text with
    | 'n' :: 'u' :: 'l' :: 'l' :: rest => some (.null, rest)
    | 't' :: 'r' :: 'u' :: 'e' :: rest => some (.boolean true, rest)
    | 'f' :: 'a' :: 'l' :: 's' :: 'e' :: rest => some (.boolean false, rest)
    | '"' :: rest => do
      let (pieces, rest) ← textBody rest
      return (textOf pieces, rest)
    | '[' :: rest =>
      match skipBlanks rest with
      | ']' :: rest => some (.list [], rest)
      | _ => do
        let (items, rest) ← items fuel rest
        return (.list items, rest)
    | '{' :: rest =>
      match skipBlanks rest with
      | '}' :: rest => some (.table [], rest)
      | _ => do
        let (fields, rest) ← fields fuel rest
        return (tableOf fields, rest)
    | other => do
      let (body, rest) ← numberBody? other
      return (← number? body, rest)

/-- The items of a list up to its bracket, at least one. -/
def items : Nat → List Char → Option (List Document × List Char)
  | 0, _ => none
  | fuel + 1, text => do
    let (first, rest) ← value fuel text
    match skipBlanks rest with
    | ']' :: rest => return ([first], rest)
    | ',' :: rest => do
      let (others, rest) ← items fuel rest
      return (first :: others, rest)
    | _ => none

/-- The fields of a table up to its brace, at least one. -/
def fields : Nat → List Char → Option (List (List Piece × Document) × List Char)
  | 0, _ => none
  | fuel + 1, text =>
    match skipBlanks text with
    | '"' :: rest => do
      let (name, rest) ← textBody rest
      match skipBlanks rest with
      | ':' :: rest => do
        let (first, rest) ← value fuel rest
        match skipBlanks rest with
        | '}' :: rest => return ([(name, first)], rest)
        | ',' :: rest => do
          let (others, rest) ← fields fuel rest
          return ((name, first) :: others, rest)
        | _ => none
      | _ => none
    | _ => none

end

/-- The document that a JSON text spells. -/
def read? (text : String) : Option Document := do
  let chars := text.toList
  let (d, rest) ← value (2 * chars.length + 1) chars
  if (skipBlanks rest).isEmpty then some d else none

end Dashboard.Json
