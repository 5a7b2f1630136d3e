import Dashboard.FileTree
import Dashboard.Text.Position

/-!
# Failures

The failures that formulas, buffers and settings report, and their wording. A failure can
be wrapped in a context any number of times; its message then starts with the outermost
context, and its cause is the failure inside.
-/

namespace Dashboard

/-- What went wrong. -/
inductive Failure where
  /-- A formula could not be read; the place is a byte offset, a line and a column. -/
  | malformed (detail : String) (offset : Nat) (position : Text.Position)
  /-- An evaluation reached a call that cannot be carried out. -/
  | unsupported (operation : String)
  /-- A path name has no identifier. -/
  | unresolved (name : String)
  /-- A setting has a value that makes no sense. -/
  | settings (reason : String)
  /-- The text of a settings file cannot be understood. -/
  | unreadable (path : String)
  /-- A file operation failed. -/
  | file (problem : FileProblem)
  /-- A value has no written form. -/
  | unwritable (reason : String)
  /-- A failure and what was being done when it arose. -/
  | within (context : String) (cause : Failure)

namespace Failure

/-- A formula could not be read at a byte offset of its source. -/
def malformedAt (source : String) (offset : Nat) (detail : String) : Failure :=
  .malformed detail offset (Text.positionAt source offset)

/-- The full text of a failure. -/
def message : Failure → String
  | .malformed detail _ position =>
    "Syntax error at line " ++ toString position.line ++ ", column " ++
      toString position.column ++ ": " ++ detail
  | .unsupported operation => "Unsupported operation: " ++ operation
  | .unresolved name => "Unresolved reference: " ++ name
  | .settings reason => "Configuration error: " ++ reason
  | .unreadable path => "Configuration error: Failed to parse config file " ++ path
  | .file problem => "IO error: " ++ problem.text
  | .unwritable reason => "Serialization error: " ++ reason
  | .within context cause => context ++ ": " ++ cause.message

/-- Whether the innermost failure is a formula that could not be read. -/
def isMalformed : Failure → Bool
  | .malformed .. => true
  | .within _ cause => cause.isMalformed
  | _ => false

/-- The texts of the causes of a failure, outermost first, the failure itself not
included. -/
def causes : Failure → List String
  | .within _ cause => cause.message :: cause.causes
  | .file problem => [problem.text]
  | _ => []

end Failure

/-- Wraps the failure of a computation in a context. -/
def inContext {α : Type} (context : String) : Except Failure α → Except Failure α :=
  Except.mapError (Failure.within context)

end Dashboard
