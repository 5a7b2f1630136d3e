import Dashboard.Failure
import Dashboard.Formula.Builtin
import Dashboard.Formula.Environment

/-!
# Evaluation of a Formula

The evaluation of a formula reads its environment, keeps the symbols that its statements
assign, and writes to the log. It coerces permissively, so that the only thing that can go
wrong is a call. What was assigned and printed before a fault stays.

An evaluation is a function from a memory to a result and the memory after it. It is
defined by recursion on the tree, so every formula has a result.
-/

namespace Dashboard.Formula

/-! ### Faults -/

/-- Why a call cannot be carried out. -/
inductive CallFault where
  | unknownFunction (callee : String)
  /-- A function of one number was given some other number of arguments. -/
  | arity (callee : String) (given : Nat)
  /-- The argument of an accessor names no data source. -/
  | badArgument (callee : String)
  deriving DecidableEq, Repr

/-- The words for a fault. -/
def CallFault.message : CallFault → String
  | .unknownFunction callee => "unknown function '" ++ callee ++ "'"
  | .arity callee given => callee ++ "/" ++ toString given
  | .badArgument callee => callee ++ " expects a single string or symbol argument"

/-- A fault as a failure. -/
def CallFault.toFailure (fault : CallFault) : Failure :=
  .unsupported fault.message

/-! ### Operations -/

/-- An operation on one operand. -/
def UnaryOp.apply : UnaryOp → Value → Value
  | .minus, v => .number (-v.toNumber)
  | .plus, v => .number v.toNumber
  | .abs, v => .number v.toNumber.abs
  | .percent, v => .number (v.toNumber / 100.0)
  | .square, v => .number (v.toNumber * v.toNumber)

/-- A sum of numbers, or the two texts joined if one of the operands is a text. -/
def sum (left right : Value) : Value :=
  if left.isText || right.isText then .text (left.display ++ right.display)
  else .number (left.toNumber + right.toNumber)

/-- An operation on two operands. -/
def BinaryOp.apply : BinaryOp → Value → Value → Value
  | .add, a, b => sum a b
  | .sub, a, b => .number (a.toNumber - b.toNumber)
  | .mul, a, b => .number (a.toNumber * b.toNumber)
  | .div, a, b => .number (a.toNumber / b.toNumber)
  | .mod, a, b => .number (Double.remainder a.toNumber b.toNumber)
  | .pow, a, b => .number (Double.power a.toNumber b.toNumber)
  | .eq, a, b => .boolean (a.strictEq b)
  | .ne, a, b => .boolean (!a.strictEq b)
  | .lt, a, b => .boolean (a.compare? b == some .lt)
  | .le, a, b => .boolean (a.compare? b == some .lt || a.compare? b == some .eq)
  | .gt, a, b => .boolean (a.compare? b == some .gt)
  | .ge, a, b => .boolean (a.compare? b == some .gt || a.compare? b == some .eq)

/-- Whether the left operand decides a short circuit. -/
def LogicalOp.decidedBy : LogicalOp → Value → Bool
  | .and, v => !v.truthy
  | .or, v => v.truthy

/-! ### Evaluation -/

/-- What statements have assigned and printed so far. -/
structure Memory where
  symbols : Table String Value
  printed : List String

/-- Computations that keep a memory and may meet a fault. -/
abbrev Evaluator := ExceptT CallFault (StateM Memory)

/-- The value of a symbol: what was assigned to it, else the value of the data source. -/
def Environment.lookUp (env : Environment) (name : String) : Evaluator Value := do
  let memory ← get
  return (memory.symbols.find? name).getD (env.value name)

/-- Assigns a value to a symbol. -/
def assign (target : String) (value : Value) : Evaluator Unit :=
  modify fun memory => { memory with symbols := memory.symbols.insert target value }

/-- Writes a line to the log. -/
def print (line : String) : Evaluator Unit :=
  modify fun memory => { memory with printed := memory.printed ++ [line] }

/-- The data source that the arguments of an accessor name. -/
def accessed (callee : String) (arguments : List Expr) : Evaluator String :=
  match sourceName? arguments with
  | some name => pure name
  | none => throw (.badArgument callee)

mutual

/-- The value of a tree. -/
def Expr.evaluate (env : Environment) : Expr → Evaluator Value
  | .number value => pure (.number value)
  | .text value => pure (.text value)
  | .boolean value => pure (.boolean value)
  | .symbol name => env.lookUp name
  | .unary op operand => do
    return op.apply (← operand.evaluate env)
  | .binary op left right => do
    let a ← left.evaluate env
    let b ← right.evaluate env
    return op.apply a b
  | .logical op left right => do
    let a ← left.evaluate env
    if op.decidedBy a then return a else right.evaluate env
  | .conditional test consequent none => do
    let t ← test.evaluate env
    if t.truthy then consequent.evaluate env else return .null
  | .conditional test consequent (some alternate) => do
    let t ← test.evaluate env
    if t.truthy then consequent.evaluate env else alternate.evaluate env
  | .call callee arguments =>
    match Builtin.ofName? callee with
    | none => throw (.unknownFunction callee)
    | some (.math f) =>
      match arguments with
      | [argument] => do
        let x ← argument.evaluate env
        return .number (f.apply x.toNumber)
      | _ => throw (.arity callee arguments.length)
    | some .parameterValue => env.value <$> accessed callee arguments
    | some .parameterAcquisitionStatus => env.quality <$> accessed callee arguments
    | some .print => do
      let values ← Expr.evaluateAll env arguments
      print (" ".intercalate (values.map Value.display))
      return .undefined
  | .assignment target value => do
    let v ← value.evaluate env
    assign target v
    return v

/-- The values of several trees, one after the other. -/
def Expr.evaluateAll (env : Environment) : List Expr → Evaluator (List Value)
  | [] => pure []
  | e :: rest => do
    let v ← e.evaluate env
    let vs ← Expr.evaluateAll env rest
    return v :: vs

end

/-- Evaluates statements one after the other; the value is that of the last one. -/
def evaluateStatements (env : Environment) : Value → List Expr → Evaluator Value
  | value, [] => pure value
  | _, e :: rest => do
    let v ← e.evaluate env
    evaluateStatements env v rest

/-- The value of a formula, and the memory after it. -/
def evaluate (f : Formula) (bindings : Bindings) (memory : Memory) :
    Except CallFault Value × Memory :=
  (evaluateStatements ⟨f.dialect, bindings⟩ .undefined f.statements).run memory

end Dashboard.Formula
