/-!
# Paths

A path is a text that leads to a file step by step, the steps divided by slashes. A step
into a name goes into a directory, two dots go up, and a single dot or an empty step stays
where it is. Without a slash in front a path starts where it is looked up.

The functions of this module look only at the text. Steps at its end that stay count for
nothing here, but two dots are not followed: what they lead to depends on the directories
that are there.
-/

namespace Dashboard

/-- A path as it is written. -/
structure Path where
  text : String
  deriving DecidableEq, Repr

namespace Path

/-- Whether a step stays where it is. -/
def isStay (step : String) : Bool :=
  step == "" || step == "."

/-- The steps of a path, in the order in which they are taken. -/
def steps (path : Path) : List String :=
  (path.text.toList.splitOn '/').map String.ofList

/-- Whether a path starts at the top of the file system. -/
def isAbsolute (path : Path) : Bool :=
  path.text.toList.head? == some '/'

/-- Steps without those at the end that stay. -/
def significant (steps : List String) : List String :=
  (steps.reverse.dropWhile isStay).reverse

/-- The name that a path ends with, unless it ends by going up. -/
def fileName? (path : Path) : Option String :=
  (significant path.steps).getLast?.filter (· != "..")

/-- The path without its last significant step. -/
def parent (path : Path) : Path :=
  let steps := significant (significant path.steps).dropLast
  if path.isAbsolute && steps.isEmpty then ⟨"/"⟩ else ⟨"/".intercalate steps⟩

/-- What follows the last dot of the file name, unless that dot begins the name. -/
def extension? (path : Path) : Option String :=
  path.fileName?.bind fun name =>
    let reversed := name.toList.reverse
    match reversed.dropWhile (· ≠ '.') with
    | _ :: _ :: _ => some (String.ofList (reversed.takeWhile (· ≠ '.')).reverse)
    | _ => none

end Path

end Dashboard
