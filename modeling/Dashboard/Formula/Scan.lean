import Dashboard.Decimal.Literal
import Dashboard.Formula.Fault
import Dashboard.Text.Blank

/-!
# Scanning a Formula

The text of a formula is cut into tokens from left to right. At each place that is not
blank the first character decides which kind of token begins there, and the token takes as
many characters as its kind allows: a name takes all letters, digits, underscores and dots
that follow, a number all digits and dots and an exponent if a digit follows its letter, a
quoted text everything up to its quote.

Offsets count bytes. The scanner works on the list of characters that are left and carries
the offset of the first of them, so nothing in front of a token can influence it.

## Main results

* `scan_nil`, `scan_blank` — a blank text has no tokens; blanks only move the offset.
-/

namespace Dashboard.Formula

/-! ### The characters of a token after its first -/

/-- A character that may stand inside a name. -/
def isNameChar (c : Char) : Bool :=
  Text.isLetter c || Text.isDigit c || c == '_' || c == '.'

/-- A character that may begin a name. -/
def isNameStart (c : Char) : Bool :=
  Text.isLetter c || c == '_'

/-- A digit or a point. -/
def isNumberChar (c : Char) : Bool :=
  Text.isDigit c || c == '.'

/-- The length of the exponent at the start of a text: none unless a digit follows the
letter and the optional sign, so that a name can stand right behind a number. -/
def exponentLength : List Char → Nat
  | [] => 0
  | e :: rest =>
    if e = 'e' ∨ e = 'E' then
      match rest with
      | s :: d :: more =>
        if s = '+' ∨ s = '-' then
          if Text.isDigit d then 2 + ((d :: more).takeWhile Text.isDigit).length else 0
        else if Text.isDigit s then 1 + (rest.takeWhile Text.isDigit).length
        else 0
      | [d] => if Text.isDigit d then 2 else 0
      | [] => 0
    else 0

/-- The length of a number after its first character. -/
def numberLength (rest : List Char) : Nat :=
  (rest.takeWhile isNumberChar).length + exponentLength (rest.dropWhile isNumberChar)

/-- The character that an escape stands for. -/
def unescape? : Char → Option Char
  | 'n' => some '\n'
  | 't' => some '\t'
  | 'r' => some '\r'
  | '\\' => some '\\'
  | '\'' => some '\''
  | '"' => some '"'
  | _ => none

/-- The value of a quoted text after its first quote and the number of characters up to
and with its last quote. A text without an end is at fault where it begins, a wrong escape
at its backslash. -/
def quotedText (start : Nat) (quote : Char) : Nat → List Char → Except Fault (List Char × Nat)
  | _, [] => .error ⟨start, .unterminatedText⟩
  | _, ['\\'] => .error ⟨start, .unterminatedText⟩
  | offset, '\\' :: c :: rest =>
    match unescape? c with
    | none => .error ⟨offset, .unknownEscape c⟩
    | some d => do
      let (value, length) ← quotedText start quote (offset + 1 + c.utf8Size) rest
      return (d :: value, length + 2)
  | offset, c :: rest =>
    if c = quote then .ok ([], 1)
    else do
      let (value, length) ← quotedText start quote (offset + c.utf8Size) rest
      return (c :: value, length + 1)

/-! ### Tokens -/

/-- A kind of token and the number of characters it takes after its first. -/
structure Lexeme where
  kind : Token.Kind
  more : Nat

/-- The number that begins with a character. -/
def numberLexeme (offset : Nat) (first : Char) (rest : List Char) : Except Fault Lexeme :=
  let more := numberLength rest
  let text := first :: rest.take more
  match Decimal.ofLiteral? text with
  | some value => .ok ⟨.number value, more⟩
  | none => .error ⟨offset, .badNumber (String.ofList text)⟩

/-- The quoted text that begins with a quote. -/
def textLexeme (offset : Nat) (quote : Char) (rest : List Char) : Except Fault Lexeme := do
  let (value, length) ← quotedText offset quote (offset + quote.utf8Size) rest
  return ⟨.text (String.ofList value), length⟩

/-- The name that begins with a character. -/
def nameLexeme (first : Char) (rest : List Char) : Lexeme :=
  let tail := rest.takeWhile isNameChar
  ⟨.name (String.ofList (first :: tail)), tail.length⟩

/-- The token that a character is whatever follows it. -/
def symbol? (c : Char) : Option Token.Kind :=
  if c = '+' then some .plus
  else if c = '-' then some .minus
  else if c = '*' then some .star
  else if c = '/' then some .slash
  else if c = '%' then some .percent
  else if c = '^' then some .caret
  else if c = '²' then some .squared
  else if c = '(' then some .leftParen
  else if c = ')' then some .rightParen
  else if c = '[' then some .leftBracket
  else if c = ']' then some .rightBracket
  else if c = ',' then some .comma
  else if c = ';' then some .semicolon
  else if c = '?' then some .question
  else if c = ':' then some .colon
  else none

/-- An operator that may take a second character: with one of the listed characters next
it is that two-character token, otherwise the token of its own, if it has one. -/
structure Compound where
  pairs : List (Char × Token.Kind)
  alone : Except (Char × String) Token.Kind

/-- The operator of one or two characters that begins with a character. -/
def compound? (c : Char) : Option Compound :=
  if c = '=' then some ⟨[('=', .equal)], .ok .assign⟩
  else if c = '!' then some ⟨[('=', .notEqual)], .error ('!', "!=")⟩
  else if c = '<' then some ⟨[('=', .lessEqual), ('>', .notEqual)], .ok .less⟩
  else if c = '>' then some ⟨[('=', .greaterEqual)], .ok .greater⟩
  else if c = '&' then some ⟨[('&', .bothAnd)], .error ('&', "&&")⟩
  else if c = '|' then some ⟨[('|', .eitherOr)], .error ('|', "||")⟩
  else none

/-- The token of an operator in front of a text. -/
def Compound.lexeme (offset : Nat) (op : Compound) (rest : List Char) : Except Fault Lexeme :=
  match op.pairs.find? fun pair => rest.head? = some pair.1 with
  | some (_, kind) => .ok ⟨kind, 1⟩
  | none =>
    match op.alone with
    | .ok kind => .ok ⟨kind, 0⟩
    | .error (typed, meant) => .error ⟨offset, .halfOperator typed meant⟩

/-- The token that begins with a character that is not blank. -/
def lexeme (offset : Nat) (first : Char) (rest : List Char) : Except Fault Lexeme :=
  match symbol? first with
  | some kind => .ok ⟨kind, 0⟩
  | none =>
    match compound? first with
    | some op => op.lexeme offset rest
    | none =>
      if first = '\'' ∨ first = '"' then textLexeme offset first rest
      else if Text.isDigit first || (first == '.' && rest.head?.any Text.isDigit) then
        numberLexeme offset first rest
      else if isNameStart first then .ok (nameLexeme first rest)
      else .error ⟨offset, .strayCharacter first⟩

/-- The tokens of a text whose first character stands at an offset. -/
def scan (offset : Nat) (text : List Char) : Except Fault (List Token) :=
  match text with
  | [] => .ok []
  | c :: rest =>
    if Text.isBlank c then scan (offset + c.utf8Size) rest
    else
      match lexeme offset c rest with
      | .error fault => .error fault
      | .ok l =>
        let stop := offset + c.utf8Size + Text.byteLength (rest.take l.more)
        match scan stop (rest.drop l.more) with
        | .error fault => .error fault
        | .ok tokens => .ok (⟨l.kind, ⟨offset, stop⟩⟩ :: tokens)
termination_by text.length
decreasing_by all_goals simp only [List.length_cons, List.length_drop]; omega

/-- A text without characters has no tokens. -/
@[simp] theorem scan_nil (offset : Nat) : scan offset [] = .ok [] := by
  rw [scan]

/-- A blank only moves the offset. -/
theorem scan_blank (offset : Nat) {c : Char} (rest : List Char) (h : Text.isBlank c = true) :
    scan offset (c :: rest) = scan (offset + c.utf8Size) rest := by
  rw [scan]; simp [h]

/-- The tokens of a source text. -/
def tokenize (source : String) : Except Fault (List Token) :=
  scan 0 source.toList

end Dashboard.Formula
