import Dashboard.Value

/-!
# Readings

A reading is the latest known state of one data source: its value and, if the delivery
said so, the quality of its acquisition.
-/

namespace Dashboard

/-- The quality of a delivered value. -/
inductive Acquisition where
  /-- Received and current. -/
  | acquired
  /-- Nothing received yet. -/
  | notReceived
  /-- Received, but failed validation. -/
  | invalid
  /-- Received, but older than its expiry period. -/
  | expired
  deriving DecidableEq, Repr

/-- All qualities, in the order of their declaration. -/
def Acquisition.all : List Acquisition :=
  [.acquired, .notReceived, .invalid, .expired]

/-- The word for a quality, as formulas see it. -/
def Acquisition.word : Acquisition → String
  | .acquired => "ACQUIRED"
  | .notReceived => "NOT_RECEIVED"
  | .invalid => "INVALID"
  | .expired => "EXPIRED"

/-- The quality that a word names; the spelling must be exact. -/
def Acquisition.ofWord? (word : String) : Option Acquisition :=
  all.find? fun a => a.word = word

/-- Every acquisition status is recognised by its word. -/
@[simp] theorem Acquisition.ofWord?_word (a : Acquisition) : ofWord? a.word = some a := by
  cases a <;> decide

/-- The latest known state of one data source. -/
structure Reading where
  value : Scalar
  /-- The quality, unless the delivery carried a value only. -/
  acquisition : Option Acquisition
  deriving BEq

/-- The quality of a reading; a delivery that does not mention it counts as acquired. -/
def Reading.quality (r : Reading) : Acquisition :=
  r.acquisition.getD .acquired

end Dashboard
