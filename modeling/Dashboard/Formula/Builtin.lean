import Dashboard.Double

/-!
# Functions of a Formula

The functions that a formula can call, found by their exact names. A call of an unknown
name is not a fault of the formula: it may stand on a branch that is never taken, so only
an evaluation that reaches it fails.

## Main results

* `isAccessor_iff` — the two accessors are the only functions whose argument names a data
  source.
-/

namespace Dashboard.Formula

/-- The functions of one number. -/
inductive MathFunction where
  | abs
  | acos
  | asin
  | atan
  | cbrt
  | ceil
  | cos
  | cosh
  | exp
  | floor
  /-- The natural logarithm. -/
  | log
  | log10
  | signum
  | sin
  | sinh
  | sqrt
  | tan
  | tanh
  | toDegrees
  | toRadians
  deriving DecidableEq, Repr

/-- The value of a function. -/
def MathFunction.apply : MathFunction → Float → Float
  | .abs, x => x.abs
  | .acos, x => x.acos
  | .asin, x => x.asin
  | .atan, x => x.atan
  | .cbrt, x => Double.cubeRoot x
  | .ceil, x => x.ceil
  | .cos, x => x.cos
  | .cosh, x => x.cosh
  | .exp, x => x.exp
  | .floor, x => x.floor
  | .log, x => x.log
  | .log10, x => x.log10
  | .signum, x => Double.sign x
  | .sin, x => x.sin
  | .sinh, x => x.sinh
  | .sqrt, x => x.sqrt
  | .tan, x => x.tan
  | .tanh, x => x.tanh
  | .toDegrees, x => x * Double.degreesPerRadian
  | .toRadians, x => x * Double.radiansPerDegree

/-- What the name of a call stands for. -/
inductive Builtin where
  | math (f : MathFunction)
  /-- The current value of a data source. -/
  | parameterValue
  /-- The quality of the current value of a data source. -/
  | parameterAcquisitionStatus
  /-- Writes its arguments to the log and has no value. -/
  | print
  deriving DecidableEq, Repr

/-- The functions and their names. -/
def Builtin.named : List (String × Builtin) :=
  [("abs", .math .abs), ("acos", .math .acos), ("asin", .math .asin), ("atan", .math .atan),
   ("cbrt", .math .cbrt), ("ceil", .math .ceil), ("cos", .math .cos), ("cosh", .math .cosh),
   ("exp", .math .exp), ("floor", .math .floor), ("log", .math .log), ("log10", .math .log10),
   ("signum", .math .signum), ("sign", .math .signum), ("sin", .math .sin),
   ("sinh", .math .sinh), ("sqrt", .math .sqrt), ("tan", .math .tan), ("tanh", .math .tanh),
   ("toDegrees", .math .toDegrees), ("toRadians", .math .toRadians),
   ("parameterValue", .parameterValue),
   ("parameterAcquisitionStatus", .parameterAcquisitionStatus), ("print", .print)]

/-- The function with a name; letter case counts. -/
def Builtin.ofName? (name : String) : Option Builtin :=
  (named.find? fun entry => entry.1 = name).map Prod.snd

/-- The function takes the name of a data source instead of a value. -/
def Builtin.accesses : Builtin → Bool
  | .parameterValue | .parameterAcquisitionStatus => true
  | _ => false

/-- Whether a name is that of an accessor. -/
def isAccessor (name : String) : Bool :=
  (Builtin.ofName? name).any Builtin.accesses

/-- There are two functions that take the name of a parameter as a text. -/
theorem isAccessor_iff {name : String} :
    isAccessor name = true ↔
      Builtin.ofName? name = some .parameterValue ∨
        Builtin.ofName? name = some .parameterAcquisitionStatus := by
  unfold isAccessor
  cases h : Builtin.ofName? name with
  | none => simp
  | some b => cases b <;> simp [Builtin.accesses]

end Dashboard.Formula
