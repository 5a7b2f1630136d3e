/-!
# Places in a Text

A place in a formula is given as a byte offset into its UTF-8 form, and shown to people as
a line and a column. Lines and columns count from one, and columns count characters.

## Main results

* `byteLength_append` — the bytes of two texts together are those of both.
-/

namespace Dashboard.Text

/-- The number of bytes of a text in UTF-8. -/
def byteLength (text : List Char) : Nat :=
  text.foldr (fun c bytes => c.utf8Size + bytes) 0

/-- A text without characters has no bytes. -/
@[simp] theorem byteLength_nil : byteLength [] = 0 := rfl

/-- A text has the bytes of its first character and those of the rest. -/
@[simp] theorem byteLength_cons (c : Char) (rest : List Char) :
    byteLength (c :: rest) = c.utf8Size + byteLength rest := rfl

/-- The bytes of two texts together are those of both. -/
@[simp] theorem byteLength_append (a b : List Char) :
    byteLength (a ++ b) = byteLength a + byteLength b := by
  induction a with
  | nil => simp
  | cons c rest ih => simp [ih, Nat.add_assoc]

/-- A line and a column, both counted from one. -/
structure Position where
  line : Nat
  column : Nat
  deriving DecidableEq, Repr

/-- The position after one more character. -/
def Position.advance (p : Position) (c : Char) : Position :=
  if c = '\n' then ⟨p.line + 1, 1⟩ else ⟨p.line, p.column + 1⟩

/-- The characters that start before a byte offset. An offset inside a character or past
the end is taken at the end of that character or of the text. -/
def before : Nat → List Char → List Char
  | 0, _ => []
  | _ + 1, [] => []
  | n + 1, c :: rest => c :: before (n + 1 - c.utf8Size) rest

/-- The line and column of a byte offset. -/
def positionAt (source : String) (offset : Nat) : Position :=
  (before offset source.toList).foldl Position.advance ⟨1, 1⟩

end Dashboard.Text
