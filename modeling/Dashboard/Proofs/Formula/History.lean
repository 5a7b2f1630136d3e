import Dashboard.LiveFormula
import Dashboard.Proofs.Formula.Consultation
import Dashboard.Proofs.Remembering

/-!
# Histories of a Formula

A host drives a live formula by a sequence of operations: it maps path names, tells readings,
has the formula evaluated, asks it questions, and clears it. This module defines what one
operation does and answers (`step`, `answer`), and what a sequence of them leaves behind and
answers (`after`, `answers`).

What a history says about mappings and readings is defined without the formula: of each path
name the last mapping counts, and of each identifier the last reading that was told since the
formula was last cleared (`lastMapping?`, `lastReading?`). One operation changes the bindings
by what it says, so after a history they hold what is remembered of it.

Two formulas are **alike** if they have the same text and the same symbols, and their bindings
give the same answers. The tables behind the bindings may be in different orders. Formulas
that are alike answer every sequence of operations alike.

## Main results

* `resolve?_after`, `reading?_after` — the last mapping and the last reading are what is left.
* `Alike.indistinguishable` — formulas that are alike cannot be told apart by any operations.
* `after_concat_clear` — clearing leaves the mappings of a history and nothing else.
* `indistinguishable_after_clear` — a cleared formula answers as a new one with the same mappings.
-/

namespace Dashboard

namespace LiveFormula

/-! ### Operations -/

/-- What a host can do to a formula. -/
inductive Operation where
  /-- Lets a path name stand for an identifier. -/
  | map (path id : String)
  /-- Tells the latest reading of an identifier. -/
  | update (id : String) (reading : Reading)
  /-- Evaluates the formula, and returns a failure. -/
  | run
  /-- Evaluates the formula, and logs a failure. -/
  | execute
  /-- Asks for the identifiers that the formula needs. -/
  | parameters
  /-- Asks whether every name that the formula reads stands for an identifier. -/
  | checkReferences
  /-- Asks for the value that was last assigned to a symbol. -/
  | assigned (name : String)
  /-- Forgets all readings and all assigned symbols. -/
  | clear

/-- What a formula answers to an operation. -/
inductive Answer where
  | done
  | outcome (result : Except Failure Value) (log : List Notice)
  | value (value : Value) (log : List Notice)
  | parameters (ids : List String)
  | references (result : Except Failure Unit)
  | assigned (value? : Option Value)

/-- What an operation makes of a formula. -/
def step (f : LiveFormula) : Operation → LiveFormula
  | .map path id => f.map path id
  | .update id reading => f.update id reading
  | .run => f.run.formula
  | .execute => f.execute.formula
  | .clear => f.clear
  | .parameters => f
  | .checkReferences => f
  | .assigned _ => f

/-- What a formula answers to an operation. -/
def answer (f : LiveFormula) : Operation → Answer
  | .run => .outcome f.run.result f.run.log
  | .execute => .value f.execute.result f.execute.log
  | .parameters => .parameters f.parameters
  | .checkReferences => .references f.checkReferences
  | .assigned name => .assigned (f.assigned? name)
  | .map .. => .done
  | .update .. => .done
  | .clear => .done

/-- What a sequence of operations makes of a formula. -/
def after (f : LiveFormula) (operations : List Operation) : LiveFormula :=
  operations.foldl step f

/-- What a formula answers to a sequence of operations. -/
def answers (f : LiveFormula) : List Operation → List Answer
  | [] => []
  | operation :: rest => f.answer operation :: (f.step operation).answers rest

/-- What comes after a history goes on from where the history has ended. -/
theorem after_append (f : LiveFormula) (operations more : List Operation) :
    f.after (operations ++ more) = (f.after operations).after more :=
  List.foldl_append

/-! ### What a history says -/

namespace Operation

/-- The identifier that an operation lets a path name stand for. -/
def mapping? (path : String) : Operation → Option String
  | .map other id => if other = path then some id else none
  | _ => none

/-- The reading of an identifier that an operation tells. -/
def reading? (id : String) : Operation → Option Reading
  | .update other reading => if other = id then some reading else none
  | _ => none

/-- Whether an operation maps a path name. -/
def isMap : Operation → Bool
  | .map .. => true
  | _ => false

/-- Whether an operation clears the formula. -/
def isClear : Operation → Bool
  | .clear => true
  | _ => false

end Operation

/-- **The last mapping** of a path name in a history. -/
def lastMapping? (history : List Operation) (path : String) : Option String :=
  remembered? (Operation.mapping? path) (fun _ => false) none history

/-- **The last reading** of an identifier that was told in a history since the formula was
last cleared. -/
def lastReading? (history : List Operation) (id : String) : Option Reading :=
  remembered? (Operation.reading? id) Operation.isClear none history

/-! ### What a history leaves behind -/

variable {f g : LiveFormula}

/-- An operation leaves the source as it is. -/
theorem source_step (f : LiveFormula) (operation : Operation) :
    (f.step operation).source = f.source := by
  cases operation with
  | execute => rw [step, formula_execute]
  | _ => rfl

/-- An operation leaves the statements as they are. -/
theorem formula_step (f : LiveFormula) (operation : Operation) :
    (f.step operation).formula = f.formula := by
  cases operation with
  | execute => rw [step, formula_execute]
  | _ => rfl

/-- Only a mapping changes what a path name stands for. -/
theorem resolve?_step (f : LiveFormula) (operation : Operation) (path : String) :
    (f.step operation).bindings.resolve? path =
      remember (Operation.mapping? path) (fun _ => false) (f.bindings.resolve? path)
        operation := by
  cases operation with
  | map other id =>
      rw [step, map, Bindings.resolve?_map, remember, Operation.mapping?]
      split
      · rfl
      · rfl
  | execute => rw [step, formula_execute]; rfl
  | _ => rfl

/-- Only an update or a clearing changes the reading of an identifier. -/
theorem reading?_step (f : LiveFormula) (operation : Operation) (id : String) :
    (f.step operation).bindings.reading? id =
      remember (Operation.reading? id) Operation.isClear (f.bindings.reading? id) operation := by
  cases operation with
  | update other reading =>
      rw [step, update, Bindings.reading?_update, remember, Operation.reading?]
      split
      · rfl
      · rfl
  | execute => rw [step, formula_execute]; rfl
  | _ => rfl

/-- The statements stay as they are throughout. -/
theorem formula_after (f : LiveFormula) (history : List Operation) :
    (f.after history).formula = f.formula := by
  induction history generalizing f with
  | nil => rfl
  | cons operation rest ih => exact (ih (f.step operation)).trans (formula_step f operation)

/-- The source stays as it is throughout. -/
theorem source_after (f : LiveFormula) (history : List Operation) :
    (f.after history).source = f.source := by
  induction history generalizing f with
  | nil => rfl
  | cons operation rest ih => exact (ih (f.step operation)).trans (source_step f operation)

/-- **A path name stands for what its last mapping says.** -/
theorem resolve?_after (f : LiveFormula) (history : List Operation) (path : String) :
    (f.after history).bindings.resolve? path =
      remembered? (Operation.mapping? path) (fun _ => false) (f.bindings.resolve? path) history :=
  view_foldl (fun f => f.bindings.resolve? path) (fun f operation => resolve?_step f operation path)
    f history

/-- **An identifier has the last reading that was told.** -/
theorem reading?_after (f : LiveFormula) (history : List Operation) (id : String) :
    (f.after history).bindings.reading? id =
      remembered? (Operation.reading? id) Operation.isClear (f.bindings.reading? id) history :=
  view_foldl (fun f => f.bindings.reading? id) (fun f operation => reading?_step f operation id)
    f history

/-! ### Formulas that are alike -/

/-- Two formulas have the same text and symbols, and their bindings give the same answers. -/
structure Alike (f g : LiveFormula) : Prop where
  source : f.source = g.source
  formula : f.formula = g.formula
  symbols : f.symbols = g.symbols
  resolve : ∀ path, f.bindings.resolve? path = g.bindings.resolve? path
  reading : ∀ id, f.bindings.reading? id = g.bindings.reading? id

/-- Formulas that are alike are evaluated alike. -/
theorem Alike.evaluate (h : f.Alike g) :
    f.formula.evaluate f.bindings ⟨f.symbols, []⟩ =
      g.formula.evaluate g.bindings ⟨g.symbols, []⟩ := by
  rw [h.formula, h.symbols]
  exact Formula.evaluate_formula_congr fun name _ =>
    Formula.Environment.reading?_congr h.resolve h.reading g.formula.dialect name

/-- Formulas that are alike have the same result. -/
theorem Alike.result_run (h : f.Alike g) : f.run.result = g.run.result :=
  congrArg (fun outcome => outcome.1.mapError Formula.CallFault.toFailure) h.evaluate

/-- They print the same. -/
theorem Alike.log_run (h : f.Alike g) : f.run.log = g.run.log :=
  congrArg (fun outcome => outcome.2.printed.map Notice.info) h.evaluate

/-- An evaluation leaves them with the same symbols. -/
theorem Alike.symbols_run (h : f.Alike g) : f.run.formula.symbols = g.run.formula.symbols :=
  congrArg (fun outcome => outcome.2.symbols) h.evaluate

/-- A failure is logged with the source text, which is the same. -/
theorem Alike.log_execute (h : f.Alike g) : f.execute.log = g.execute.log := by
  have hnotice : f.failedNotice = g.failedNotice := by
    funext failure
    rw [failedNotice, failedNotice, h.source]
  rw [execute, execute, h.result_run, h.log_run, hnotice]
  cases g.run.result with
  | ok value => rfl
  | error failure => rfl

/-- They have the same parameters. -/
theorem Alike.parameters (h : f.Alike g) : f.parameters = g.parameters := by
  rw [LiveFormula.parameters, LiveFormula.parameters, h.formula]
  exact Formula.parameters_eq_of_resolve? h.resolve g.formula

/-- They lack the same references. -/
theorem Alike.checkReferences (h : f.Alike g) : f.checkReferences = g.checkReferences := by
  have hunresolved : f.formula.unresolved? f.bindings = g.formula.unresolved? g.bindings := by
    rw [h.formula, Formula.unresolved?, Formula.unresolved?,
      funext (Formula.Environment.sourceId?_congr h.resolve g.formula.dialect)]
  rw [LiveFormula.checkReferences, LiveFormula.checkReferences, hunresolved]

/-- **Formulas that are alike give the same answer.** -/
theorem Alike.answer (h : f.Alike g) (operation : Operation) :
    f.answer operation = g.answer operation := by
  cases operation with
  | run => rw [LiveFormula.answer, LiveFormula.answer, h.result_run, h.log_run]
  | execute =>
      rw [LiveFormula.answer, LiveFormula.answer, result_execute, result_execute, h.result_run,
        h.log_execute]
  | parameters => exact congrArg Answer.parameters h.parameters
  | checkReferences => exact congrArg Answer.references h.checkReferences
  | assigned name => exact congrArg (fun symbols => Answer.assigned (symbols.find? name)) h.symbols
  | map path id => rfl
  | update id reading => rfl
  | clear => rfl

/-- **Formulas that are alike stay alike.** -/
theorem Alike.step (h : f.Alike g) (operation : Operation) :
    (f.step operation).Alike (g.step operation) where
  source := by rw [source_step, source_step, h.source]
  formula := by rw [formula_step, formula_step, h.formula]
  symbols := by
    cases operation with
    | run => exact h.symbols_run
    | execute =>
        rw [LiveFormula.step, LiveFormula.step, formula_execute, formula_execute]
        exact h.symbols_run
    | clear => rfl
    | _ => exact h.symbols
  resolve := fun path => by rw [resolve?_step, resolve?_step, h.resolve]
  reading := fun id => by rw [reading?_step, reading?_step, h.reading]

/-- No sequence of operations tells two formulas apart. -/
def Indistinguishable (f g : LiveFormula) : Prop :=
  ∀ more, f.answers more = g.answers more

/-- **Formulas that are alike cannot be told apart.** -/
theorem Alike.indistinguishable (h : f.Alike g) : f.Indistinguishable g := by
  intro more
  induction more generalizing f g with
  | nil => rfl
  | cons operation rest ih => rw [answers, answers, h.answer operation, ih (h.step operation)]

/-! ### Clearing -/

/-- A mapping does to a formula what it would do to the cleared one, and any other operation
does nothing that clearing would not undo. -/
theorem clear_step (f : LiveFormula) (operation : Operation) :
    (f.step operation).clear = f.clear.after ([operation].filter Operation.isMap) := by
  cases operation with
  | execute => rw [step, formula_execute]; rfl
  | _ => rfl

/-- **Clearing leaves the mappings of a history and nothing else.** -/
theorem after_concat_clear (f : LiveFormula) (history : List Operation) :
    f.after (history ++ [.clear]) = f.clear.after (history.filter Operation.isMap) := by
  rw [after_append]
  show (f.after history).clear = _
  induction history generalizing f with
  | nil => rfl
  | cons operation rest ih =>
      rw [← List.singleton_append, List.filter_append, after_append, after_append, ← clear_step]
      exact ih (f.step operation)

/-- **Clearing is a fresh start.** Whatever a formula has been through, once it is cleared it
answers every sequence of operations as a new formula does that was only told the mappings of its
history. No reading is left and no assigned symbol, not even one that was assigned before a fault,
and no mapping is lost. -/
theorem indistinguishable_after_clear (source : String) (formula : Formula)
    (history : List Operation) :
    Indistinguishable ((ofFormula source formula).after (history ++ [.clear]))
        ((ofFormula source formula).after (history.filter Operation.isMap)) ∧
      (∀ id, ((ofFormula source formula).after (history ++ [.clear])).bindings.reading? id =
        none) ∧
      (∀ name, ((ofFormula source formula).after (history ++ [.clear])).assigned? name = none) ∧
      ∀ path, ((ofFormula source formula).after (history ++ [.clear])).bindings.resolve? path =
        lastMapping? history path := by
  refine ⟨?_, ?_, ?_, ?_⟩
  · rw [after_concat_clear]
    exact fun _ => rfl
  · intro id
    rw [after_append]
    rfl
  · intro name
    rw [after_append]
    rfl
  · intro path
    rw [after_append]
    exact resolve?_after (ofFormula source formula) history path

example :
    (ofFormula "n = true; nope()"
      ⟨.legacy, [.assignment "n" (.boolean true), .call "nope" []]⟩).answers
        [.run, .assigned "n", .clear, .assigned "n"] =
      [.outcome (.error (.unsupported "unknown function 'nope'")) [],
        .assigned (some (.boolean true)), .done, .assigned none] :=
  rfl

end LiveFormula

end Dashboard
