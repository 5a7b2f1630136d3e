import Dashboard.Reading
import Dashboard.Table

/-!
# Bindings

A formula speaks of data sources by path names of its display or by identifiers. Bindings
say which identifier a path name stands for, and hold the latest reading of every
identifier. A later mapping or reading replaces the earlier one of the same name.

They also issue names for formulas that have none of their own; a name is never issued
twice by the same bindings, not even after they were cleared.

## Main results

* `resolve?_map`, `reading?_update` — the last mapping and the last reading count.
* `issuedName_injective` — no name is issued twice.
-/

namespace Dashboard

/-- What path names stand for, and the latest reading of each identifier. -/
structure Bindings where
  pathNames : Table String String
  readings : Table String Reading
  /-- How many names have been issued. -/
  issued : Nat

namespace Bindings

/-- No mappings, no readings, no names issued. -/
def empty : Bindings := ⟨.empty, .empty, 0⟩

instance : Inhabited Bindings := ⟨empty⟩

/-- Lets a path name stand for an identifier. -/
def map (b : Bindings) (path id : String) : Bindings :=
  { b with pathNames := b.pathNames.insert path id }

/-- The identifier that a path name stands for. -/
def resolve? (b : Bindings) (path : String) : Option String :=
  b.pathNames.find? path

/-- The identifier that a path name stands for, the name itself if there is none. -/
def resolveOrSelf (b : Bindings) (name : String) : String :=
  (b.resolve? name).getD name

/-- The path names with their identifiers. -/
def mappings (b : Bindings) : List (String × String) :=
  b.pathNames.entries

/-- Takes note of the latest reading of an identifier. -/
def update (b : Bindings) (id : String) (reading : Reading) : Bindings :=
  { b with readings := b.readings.insert id reading }

/-- The latest reading of an identifier. -/
def reading? (b : Bindings) (id : String) : Option Reading :=
  b.readings.find? id

/-- How many identifiers have a reading. -/
def readingCount (b : Bindings) : Nat :=
  b.readings.size

/-- Forgets all readings and keeps the mappings. -/
def clearReadings (b : Bindings) : Bindings :=
  { b with readings := .empty }

/-- Forgets all readings and all mappings. -/
def clear (b : Bindings) : Bindings :=
  { b with pathNames := .empty, readings := .empty }

/-- The name that is issued as the given one in a row. -/
def issuedName (n : Nat) : String :=
  "__formula_" ++ toString n

/-- Issues a name. -/
def issueName (b : Bindings) : String × Bindings :=
  (issuedName (b.issued + 1), { b with issued := b.issued + 1 })

/-! ### Views -/

/-- A path name has its last mapping. -/
@[simp] theorem resolve?_map (b : Bindings) (path id name : String) :
    (b.map path id).resolve? name = if path = name then some id else b.resolve? name := by
  simp [map, resolve?, Table.find?_insert]

/-- An identifier has its last reading. -/
@[simp] theorem reading?_update (b : Bindings) (id name : String) (r : Reading) :
    (b.update id r).reading? name = if id = name then some r else b.reading? name := by
  simp [update, reading?, Table.find?_insert]

/-- No name is issued twice. -/
theorem issuedName_injective {m n : Nat} (h : issuedName m = issuedName n) : m = n := by
  have digits : Nat.toDigits 10 m = Nat.toDigits 10 n := by
    simpa [issuedName, toString, Nat.repr] using congrArg String.toList h
  rw [← Nat.ofDigitChars_toDigits (b := 10) (n := m) (by decide) (by decide), digits,
    Nat.ofDigitChars_toDigits (by decide) (by decide)]

end Bindings

end Dashboard
