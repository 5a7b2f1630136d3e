import Dashboard.Decimal.Layout
import Dashboard.Document

/-!
# Writing JSON

A document has a compact form without blanks and a pretty form with every item and field on
a line of its own, indented by two spaces for each level. A number that is not finite is
written as `null`, as is a broken value.
-/

namespace Dashboard.Json

/-- The form of one character inside a text. Quotes, backslashes and control characters
are escaped, everything else stands for itself. -/
def escapeChar (c : Char) : List Char :=
  match c with
  | '"' => ['\\', '"']
  | '\\' => ['\\', '\\']
  | '\n' => ['\\', 'n']
  | '\r' => ['\\', 'r']
  | '\t' => ['\\', 't']
  | '\x08' => ['\\', 'b']
  | '\x0c' => ['\\', 'f']
  | c =>
    if c.toNat < 0x20 then
      let digits := Nat.toDigits 16 c.toNat
      ['\\', 'u'] ++ List.replicate (4 - digits.length) '0' ++ digits
    else [c]

/-- A text between quotes. -/
def quoted (s : String) : String :=
  "\"" ++ String.ofList (s.toList.flatMap escapeChar) ++ "\""

/-- A number. -/
def number (x : Float) : String :=
  if x.isFinite then Decimal.Layout.json.render x else "null"

/-- A document that has no parts. -/
def leaf : Document → String
  | .null | .broken => "null"
  | .boolean true => "true"
  | .boolean false => "false"
  | .integer n => toString n
  | .real x => number x
  | .text s => quoted s
  | .list _ => "[]"
  | .table _ => "\x7b\x7d"

mutual

/-- A document on one line. -/
def compact : Document → String
  | .list items => "[" ++ ",".intercalate (compactItems items) ++ "]"
  | .table fields => "\x7b" ++ ",".intercalate (compactFields fields) ++ "\x7d"
  | d => leaf d

/-- The items of a list, each on one line. -/
def compactItems : List Document → List String
  | [] => []
  | d :: rest => compact d :: compactItems rest

/-- The fields of a table, each on one line. -/
def compactFields : List (String × Document) → List String
  | [] => []
  | (name, d) :: rest => (quoted name ++ ":" ++ compact d) :: compactFields rest

end

/-- A line break and the indentation of a level. -/
def newline (level : Nat) : String :=
  "\n" ++ String.ofList (List.replicate (2 * level) ' ')

mutual

/-- A document with its parts on lines of their own, the document itself on a level. -/
def prettyAt (level : Nat) : Document → String
  | .list (first :: rest) =>
    "[" ++ ",".intercalate (prettyItems (level + 1) (first :: rest)) ++ newline level ++ "]"
  | .table (first :: rest) =>
    "\x7b" ++ ",".intercalate (prettyFields (level + 1) (first :: rest)) ++ newline level ++ "\x7d"
  | d => leaf d

/-- The items of a list, each behind a line break. -/
def prettyItems (level : Nat) : List Document → List String
  | [] => []
  | d :: rest => (newline level ++ prettyAt level d) :: prettyItems level rest

/-- The fields of a table, each behind a line break. -/
def prettyFields (level : Nat) : List (String × Document) → List String
  | [] => []
  | (name, d) :: rest =>
    (newline level ++ quoted name ++ ": " ++ prettyAt level d) :: prettyFields level rest

end

/-- A document with its parts on lines of their own. -/
def pretty (d : Document) : String :=
  prettyAt 0 d

end Dashboard.Json
