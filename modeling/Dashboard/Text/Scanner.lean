import Dashboard.Decimal.Literal
import Dashboard.Text.Blank

/-!
# Scanners

A scanner takes something off the front of a text, or fails. Scanners are functions on the
list of characters that are left; they are put together with `do`, and `<|>` tries a second
scanner on the same text if the first one fails.

## Main results

* `skipWhile_run`, `takeWhile_run` — what a run of characters leaves behind.
-/

namespace Dashboard.Text

/-- Takes something off the front of a text. -/
abbrev Scanner := StateT (List Char) Option

namespace Scanner

/-- Takes a character with a property. -/
def satisfying (p : Char → Bool) : Scanner Char := fun text =>
  match text with
  | c :: rest => if p c then some (c, rest) else none
  | [] => none

/-- Takes a certain character. -/
def char (c : Char) : Scanner Unit := do
  let _ ← satisfying (· == c)

/-- Takes a certain word. -/
def word (w : String) : Scanner Unit := fun text =>
  if w.toList.isPrefixOf text then some ((), text.drop w.length) else none

/-- Takes characters for as long as they have a property. -/
def takeWhile (p : Char → Bool) : Scanner (List Char) := fun text =>
  some (text.takeWhile p, text.dropWhile p)

/-- Drops characters for as long as they have a property. -/
def skipWhile (p : Char → Bool) : Scanner Unit := fun text =>
  some ((), text.dropWhile p)

/-- Drops blanks. -/
def blanks : Scanner Unit :=
  skipWhile isBlank

/-- Takes digits, at least one and at most a number of them. -/
def digits (width : Nat) : Scanner (List Char) := fun text =>
  let taken := (text.take width).takeWhile isDigit
  if taken.isEmpty then none else some (taken, text.drop taken.length)

/-- Takes exactly a number of digits, which lie between bounds as a number. -/
def fixed (width low high : Nat) : Scanner Nat := do
  let taken ← digits width
  let n := Decimal.natOfDigits taken
  if taken.length = width ∧ low ≤ n ∧ n ≤ high then return n else failure

/-- Whether a character comes next. -/
def ahead (c : Char) : Scanner Bool := fun text =>
  some (text.head? == some c, text)

/-- The value of a scanner that takes a whole text. -/
def whole? {α : Type} (s : Scanner α) (text : String) : Option α :=
  match s.run text.toList with
  | some (a, []) => some a
  | _ => none

/-- Skipping drops the characters with a property that come next. -/
theorem skipWhile_run (p : Char → Bool) (text : List Char) :
    (skipWhile p).run text = some ((), text.dropWhile p) := rfl

/-- Taking gives them, and leaves what is behind them. -/
theorem takeWhile_run (p : Char → Bool) (text : List Char) :
    (takeWhile p).run text = some (text.takeWhile p, text.dropWhile p) := rfl

end Scanner

end Dashboard.Text
