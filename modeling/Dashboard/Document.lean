/-!
# Documents

A document is structured data as JSON and TOML files hold it. Tables keep their fields in
the order of the text and may name a field twice; it is for the reader of a table to say
what that means.

A record is read from a document by the names of its fields. It may be written as a table
with named fields, in any order and with fields that nobody asked for, or as a list of its
fields in the order of their declaration, where fields at the end may be missing. A field
that is named twice makes the record unreadable.

A value can also be broken: written correctly, and yet without a meaning. It does no harm
where nobody asks for it, and makes everything unreadable that is read from it.

The two formats differ in small ways. Only JSON has `null` and broken values. There `null`
stands for the missing content of a choice; in TOML an empty list or table does. Items of a
list that are more than a record has fields are refused in JSON and overlooked in TOML.

## Main results

* `asCount?_integer` — a whole number of 64 bits is a count.
-/

namespace Dashboard

/-- Structured data. -/
inductive Document where
  | null
  | broken
  | boolean (b : Bool)
  | integer (n : Int)
  | real (x : Float)
  | text (s : String)
  | list (items : List Document)
  | table (fields : List (String × Document))
  deriving BEq, Inhabited

/-- The formats of documents. -/
inductive Format where
  | json
  | toml
  deriving DecidableEq, Repr

namespace Document

/-! ### Records -/

/-- The first field with a name. -/
def field? (name : String) (fields : List (String × Document)) : Option Document :=
  (fields.find? fun field => field.1 = name).map Prod.snd

/-- How often a name is given. -/
def occurrences (name : String) (fields : List (String × Document)) : Nat :=
  fields.countP fun field => field.1 = name

/-- The fields of a record with the given field names, in the order of their declaration;
`none` for a field that is not given. -/
def record? (format : Format) (names : List String) : Document → Option (List (Option Document))
  | .table fields =>
    if names.all fun name => occurrences name fields ≤ 1 then
      some (names.map fun name => field? name fields)
    else none
  | .list items =>
    if items.length ≤ names.length ∨ format = .toml then
      let given := items.take names.length
      some (given.map some ++ List.replicate (names.length - given.length) none)
    else none
  | _ => none

/-! ### Single values -/

/-- A boolean. -/
def asBoolean? : Document → Option Bool
  | .boolean b => some b
  | _ => none

/-- A text. -/
def asText? : Document → Option String
  | .text s => some s
  | _ => none

/-- A whole number from zero up to the largest that 64 bits hold. -/
def asCount? : Document → Option Nat
  | .integer (.ofNat n) => if n < UInt64.size then some n else none
  | _ => none

/-- A whole number of 64 bits is a count. -/
theorem asCount?_integer {n : Nat} (h : n < UInt64.size) :
    (integer n).asCount? = some n :=
  if_pos h

/-- A number, whole or not, as a double. -/
def asDouble? : Document → Option Float
  | .integer n => some (Float.ofInt n)
  | .real x => some x
  | _ => none

/-- Whether a document stands for no content in a format. -/
def isMissing : Format → Document → Bool
  | .json, .null => true
  | .toml, .list [] => true
  | .toml, .table [] => true
  | _, _ => false

/-- One of several words. A choice is written as its word, or as a table whose only field
has that name and no content. -/
def asWord? (format : Format) : Document → Option String
  | .text s => some s
  | .table [(name, content)] => if isMissing format content then some name else none
  | _ => none

/-- A field that may be missing: absent gives the default, present must be readable. -/
def orDefault {α : Type} (default : α) (read : Document → Option α) :
    Option Document → Option α
  | none => some default
  | some d => read d

/-- A field that must be given. -/
def required {α : Type} (read : Document → Option α) : Option Document → Option α
  | none => none
  | some d => read d

end Document

end Dashboard
