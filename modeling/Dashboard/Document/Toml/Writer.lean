import Dashboard.Decimal.Layout
import Dashboard.Document.Toml.Reader

/-!
# Writing TOML

A table is written as a section: its header, and a line for each field that is not a table.
The sections of its inner tables follow, with a blank line in front of each section but the
first. A table without lines of its own needs no header if it has inner tables. Tables
inside of lists are written on one line.

Not every document can be written: there is neither `null` nor a broken value, and whole
numbers have 64 bits with a sign.
-/

namespace Dashboard.Toml

/-- The form of one character inside a text. -/
def escapeChar (c : Char) : List Char :=
  match c with
  | '"' => ['\\', '"']
  | '\\' => ['\\', '\\']
  | '\n' => ['\\', 'n']
  | '\r' => ['\\', 'r']
  | '\t' => ['\\', 't']
  | '\x08' => ['\\', 'b']
  | '\x0c' => ['\\', 'f']
  | c =>
    if isPrintable c then [c]
    else
      let digits := (Nat.toDigits 16 c.toNat).map Char.toUpper
      ['\\', 'u'] ++ List.replicate (4 - digits.length) '0' ++ digits

/-- A text between quotes. -/
def quoted (s : String) : String :=
  "\"" ++ String.ofList (s.toList.flatMap escapeChar) ++ "\""

/-- A part of a key, between quotes if it needs them. -/
def keyText (name : String) : String :=
  if !name.isEmpty && name.toList.all isKeyChar then name else quoted name

/-- A number. -/
def realText (x : Float) : String :=
  if x.isNaN then "nan"
  else if x.isInf then (if x > 0.0 then "inf" else "-inf")
  else Decimal.Layout.json.render x

mutual

/-- A document on one line, or why it cannot be written. -/
def inline : Document → Except String String
  | .null | .broken => .error "unsupported unit type"
  | .boolean true => .ok "true"
  | .boolean false => .ok "false"
  | .integer n => if fits n then .ok (toString n) else .error "out-of-range value for u64 type"
  | .real x => .ok (realText x)
  | .text s => .ok (quoted s)
  | .list items => do
    return "[" ++ ", ".intercalate (← inlineItems items) ++ "]"
  | .table [] => .ok "\x7b\x7d"
  | .table fields => do
    return "\x7b " ++ ", ".intercalate (← inlineFields fields) ++ " \x7d"

/-- The items of a list. -/
def inlineItems : List Document → Except String (List String)
  | [] => .ok []
  | d :: rest => do
    return (← inline d) :: (← inlineItems rest)

/-- The fields of a table. -/
def inlineFields : List (String × Document) → Except String (List String)
  | [] => .ok []
  | (name, d) :: rest => do
    return (keyText name ++ " = " ++ (← inline d)) :: (← inlineFields rest)

end

/-- Whether a document is a table. -/
def isTable : Document → Bool
  | .table _ => true
  | _ => false

/-- The header of a section. -/
def headerText (path : List String) : String :=
  if path.isEmpty then "" else "[" ++ ".".intercalate (path.map keyText) ++ "]\n"

/-- The lines of the fields that are not tables. -/
def ownLines (fields : List (String × Document)) : Except String (List String) :=
  (fields.filter fun field => !isTable field.2).mapM fun field => do
    return keyText field.1 ++ " = " ++ (← inline field.2) ++ "\n"

mutual

/-- The sections of the table at a path and of its inner tables. -/
def sections (path : List String) : Document → Except String (List String)
  | .table fields => do
    let lines ← ownLines fields
    let own :=
      if lines.isEmpty && (path.isEmpty || fields.any fun field => isTable field.2) then []
      else [headerText path ++ String.join lines]
    return own ++ (← innerSections path fields)
  | _ => .ok []

/-- The sections of the fields that are tables. -/
def innerSections (path : List String) : List (String × Document) → Except String (List String)
  | [] => .ok []
  | (name, d) :: rest => do
    return (← sections (path ++ [name]) d) ++ (← innerSections path rest)

end

/-- The text of a table, or why it cannot be written. -/
def write (d : Document) : Except String String := do
  return "\n".intercalate (← sections [] d)

end Dashboard.Toml
