import Dashboard.Failure
import Dashboard.Formula.Token

/-!
# Faults in a Formula

A fault is a reason why a formula cannot be read, at a byte offset of its text. The reasons
are data; their wording is in one place.
-/

namespace Dashboard.Formula

/-- Why a formula cannot be read. -/
inductive Fault.Cause where
  /-- Half of an operator that is written with two characters. -/
  | halfOperator (typed : Char) (meant : String)
  | strayCharacter (c : Char)
  | unterminatedText
  | unknownEscape (c : Char)
  | badNumber (text : String)
  | emptyFormula
  | unexpectedEnd
  | unexpectedToken (kind : Token.Kind)
  | unexpectedKeyword (name : String)
  /-- A certain token had to come, and another one or the end was found. -/
  | expectedToken (kind : Token.Kind) (found : Option Token.Kind)
  | expectedKeyword (keyword : Keyword)
  | nestedTooDeep (limit : Nat)
  | assignmentNotAllowed
  | badTarget
  | severalStatements
  | badAccessorArgument (callee : String)

/-- A reason and the byte offset it is found at. -/
structure Fault where
  offset : Nat
  cause : Fault.Cause

/-- The words for a reason. -/
def Fault.Cause.message : Fault.Cause → String
  | .halfOperator typed meant =>
    "unexpected '" ++ String.singleton typed ++ "' (did you mean '" ++ meant ++ "'?)"
  | .strayCharacter c => "unexpected character '" ++ String.singleton c ++ "'"
  | .unterminatedText => "unterminated string literal"
  | .unknownEscape c => "unknown escape sequence '\\" ++ String.singleton c ++ "'"
  | .badNumber text => "invalid number '" ++ text ++ "'"
  | .emptyFormula => "empty formula"
  | .unexpectedEnd => "unexpected end of formula"
  | .unexpectedToken kind => "unexpected " ++ kind.describe
  | .unexpectedKeyword name => "unexpected keyword '" ++ name ++ "'"
  | .expectedToken kind found =>
    "expected " ++ kind.describe ++ ", found " ++ (found.map (·.describe)).getD "end of formula"
  | .expectedKeyword keyword => "expected '" ++ keyword.spelling ++ "'"
  | .nestedTooDeep limit => "expression nested deeper than " ++ toString limit ++ " levels"
  | .assignmentNotAllowed => "assignment is only allowed in the legacy dialect"
  | .badTarget => "invalid assignment target"
  | .severalStatements => "multiple statements are only allowed in the legacy dialect"
  | .badAccessorArgument callee => callee ++ " expects a single string or symbol argument"

/-- A fault as a failure that shows its place in the formula. -/
def Fault.toFailure (source : String) (fault : Fault) : Failure :=
  .malformedAt source fault.offset fault.cause.message

end Dashboard.Formula
