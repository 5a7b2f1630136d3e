import Dashboard.Formula.Evaluation
import Dashboard.Formula.Grammar
import Dashboard.Formula.References
import Dashboard.Log

/-!
# Live Formulas

A live formula is a formula together with what it has been told: the mappings of its path
names, the latest readings, and the symbols that its statements assigned when it was last
evaluated. The formula itself never changes, so a new reading costs no parsing.

## Main results

* `ofSource_eq_ok_iff` — which sources make a live formula, and which one.
* `formula_execute` — evaluating a live formula does not change its formula.
-/

namespace Dashboard

/-- A formula and its state. -/
structure LiveFormula where
  source : String
  formula : Formula
  bindings : Bindings
  /-- The symbols that statements have assigned. -/
  symbols : Table String Value

namespace LiveFormula

/-- A formula that has not been told anything. -/
def ofFormula (source : String) (formula : Formula) : LiveFormula :=
  ⟨source, formula, .empty, .empty⟩

/-- The formula that a source text spells. -/
def ofSource (options : Formula.Options) (source : String) : Except Failure LiveFormula :=
  (Formula.ofSource options source).map (ofFormula source)

/-- Lets a path name stand for an identifier. -/
def map (f : LiveFormula) (path id : String) : LiveFormula :=
  { f with bindings := f.bindings.map path id }

/-- Takes note of the latest reading of an identifier. -/
def update (f : LiveFormula) (id : String) (reading : Reading) : LiveFormula :=
  { f with bindings := f.bindings.update id reading }

/-- Forgets all readings and all assigned symbols; the mappings stay. -/
def clear (f : LiveFormula) : LiveFormula :=
  { f with bindings := f.bindings.clearReadings, symbols := .empty }

/-- The value that was last assigned to a symbol. -/
def assigned? (f : LiveFormula) (name : String) : Option Value :=
  f.symbols.find? name

/-- The identifiers that the formula needs. -/
def parameters (f : LiveFormula) : List String :=
  f.formula.parameters f.bindings

/-- A legacy formula may only read path names that stand for an identifier. -/
def checkReferences (f : LiveFormula) : Except Failure Unit :=
  match f.formula.unresolved? f.bindings with
  | some name => .error (.unresolved name)
  | none => .ok ()

/-! ### Evaluation -/

/-- What an evaluation leaves behind. -/
structure Run (α : Type) where
  result : α
  formula : LiveFormula
  log : List Notice

/-- Evaluates the formula once. -/
def run (f : LiveFormula) : Run (Except Failure Value) :=
  let (result, memory) := f.formula.evaluate f.bindings ⟨f.symbols, []⟩
  { result := result.mapError Formula.CallFault.toFailure
    formula := { f with symbols := memory.symbols }
    log := memory.printed.map .info }

/-- The warning that an evaluation failed. -/
def failedNotice (f : LiveFormula) (failure : Failure) : Notice :=
  .warning ("Formula '" ++ f.source ++ "' evaluation failed: " ++ failure.message)

/-- Evaluates the formula once; a failure is logged and leaves the value undefined. -/
def execute (f : LiveFormula) : Run Value :=
  let run := f.run
  match run.result with
  | .ok value => { run with result := value }
  | .error failure =>
    { run with result := .undefined, log := run.log ++ [f.failedNotice failure] }

/-- A source text that spells a formula gives a formula that has not been told anything. -/
theorem ofSource_eq_ok_iff {options : Formula.Options} {source : String} {f : LiveFormula} :
    ofSource options source = .ok f ↔
      ∃ formula, Formula.ofSource options source = .ok formula ∧ f = ofFormula source formula := by
  rw [ofSource]
  cases Formula.ofSource options source with
  | error failure => simp [Except.map]
  | ok formula => simp [Except.map, eq_comm]

/-- An evaluation changes nothing but the symbols, whether it fails or not. -/
theorem formula_execute (f : LiveFormula) :
    f.execute.formula = { f with symbols := f.run.formula.symbols } := by
  rw [execute]
  split
  · rfl
  · rfl

/-- The value of a formula, undefined if its evaluation fails. -/
theorem result_execute (f : LiveFormula) :
    f.execute.result = f.run.result.toOption.getD .undefined := by
  rw [execute]
  split
  · next h => rw [h]; rfl
  · next h => rw [h]; rfl

end LiveFormula

end Dashboard
