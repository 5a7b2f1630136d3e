import Dashboard.Proofs.Formula.Concatenation
import Dashboard.Proofs.Formula.Consultation

/-!
# Operands that are not Taken

An evaluation does not come to every operand: it passes over the branch that a conditional does
not select, the right operand of a short circuit that the left one has decided, whatever stands
behind a fault, and the arguments of a call that cannot be carried out. What stands there makes
no difference, be it a call of an unknown function, a line to print or an assignment.

Which operands are taken depends on the values that have come up by then, and on the symbols
that have been assigned. So two trees **vary** in a memory: where the evaluation of the first
one takes an operand, the operands vary in the memory that it is taken in, and where it takes
none, any two trees may stand.

## Main results

* `Expr.Varies` — trees that differ only in operands that are not taken.
* `Expr.Varies.of_decided`, `Expr.Varies.of_truthy` — operands that are passed over.
* `Expr.evaluate_of_varies` — such trees are evaluated alike.
* `LiveFormula.run_of_varies` — and so are formulas.
-/

namespace Dashboard

namespace Formula

mutual

/-- **Trees that differ only in operands that are not taken** when the first one is evaluated in
a memory. -/
inductive Expr.Varies (env : Environment) : Memory → Expr → Expr → Prop
  | same (memory : Memory) (e : Expr) : Varies env memory e e
  | unary {memory : Memory} {op : UnaryOp} {operand operand' : Expr} :
      Varies env memory operand operand' →
      Varies env memory (.unary op operand) (.unary op operand')
  | binary {memory : Memory} {op : BinaryOp} {left left' right right' : Expr} :
      Varies env memory left left' →
      (∀ a after, (left.evaluate env).run memory = (.ok a, after) →
        Varies env after right right') →
      Varies env memory (.binary op left right) (.binary op left' right')
  | logical {memory : Memory} {op : LogicalOp} {left left' right right' : Expr} :
      Varies env memory left left' →
      (∀ a after, (left.evaluate env).run memory = (.ok a, after) → op.decidedBy a = false →
        Varies env after right right') →
      Varies env memory (.logical op left right) (.logical op left' right')
  | conditional {memory : Memory} {test test' consequent consequent' : Expr} :
      Varies env memory test test' →
      (∀ t after, (test.evaluate env).run memory = (.ok t, after) → t.truthy = true →
        Varies env after consequent consequent') →
      Varies env memory (.conditional test consequent none) (.conditional test' consequent' none)
  | alternative {memory : Memory} {test test' consequent consequent' alternate alternate' : Expr} :
      Varies env memory test test' →
      (∀ t after, (test.evaluate env).run memory = (.ok t, after) → t.truthy = true →
        Varies env after consequent consequent') →
      (∀ t after, (test.evaluate env).run memory = (.ok t, after) → t.truthy = false →
        Varies env after alternate alternate') →
      Varies env memory (.conditional test consequent (some alternate))
        (.conditional test' consequent' (some alternate'))
  | call {memory : Memory} {callee : String} {arguments arguments' : List Expr} :
      VariesAll env memory arguments arguments' → arguments'.length = arguments.length →
      Varies env memory (.call callee arguments) (.call callee arguments')
  /-- No argument of an unknown function is taken. -/
  | unknown {memory : Memory} {callee : String} {arguments arguments' : List Expr} :
      Builtin.ofName? callee = none →
      Varies env memory (.call callee arguments) (.call callee arguments')
  /-- Nor is one of a function of one number that is given some other number of them. -/
  | arity {memory : Memory} {callee : String} {f : MathFunction}
      {arguments arguments' : List Expr} :
      Builtin.ofName? callee = some (.math f) → arguments.length ≠ 1 →
      arguments'.length = arguments.length →
      Varies env memory (.call callee arguments) (.call callee arguments')
  | assignment {memory : Memory} {target : String} {value value' : Expr} :
      Varies env memory value value' →
      Varies env memory (.assignment target value) (.assignment target value')

/-- Lists of trees, evaluated one after the other, that differ only in operands that are not
taken. -/
inductive Expr.VariesAll (env : Environment) : Memory → List Expr → List Expr → Prop
  | nil (memory : Memory) : VariesAll env memory [] []
  | cons {memory : Memory} {e e' : Expr} {rest rest' : List Expr} :
      Expr.Varies env memory e e' →
      (∀ v after, (e.evaluate env).run memory = (.ok v, after) →
        VariesAll env after rest rest') →
      VariesAll env memory (e :: rest) (e' :: rest')

end

variable {env : Environment} {memory after : Memory}

/-! ### What is passed over -/

/-- Behind a left operand that decides a short circuit any right operand may stand. -/
theorem Expr.Varies.of_decided {op : LogicalOp} {left left' : Expr} {a : Value}
    (hleft : (left.evaluate env).run memory = (.ok a, after)) (hdecided : op.decidedBy a = true)
    (h : Expr.Varies env memory left left') (right right' : Expr) :
    Expr.Varies env memory (.logical op left right) (.logical op left' right') := by
  refine .logical h fun b after' hb hopen => ?_
  rw [hleft] at hb
  cases hb
  rw [hdecided] at hopen
  cases hopen

/-- Behind a test that holds the first branch counts, and any other second branch may stand. -/
theorem Expr.Varies.of_truthy {test test' consequent consequent' : Expr} {t : Value}
    (htest : (test.evaluate env).run memory = (.ok t, after)) (htrue : t.truthy = true)
    (h : Expr.Varies env memory test test') (h' : Expr.Varies env after consequent consequent')
    (alternate alternate' : Expr) :
    Expr.Varies env memory (.conditional test consequent (some alternate))
      (.conditional test' consequent' (some alternate')) := by
  refine .alternative h (fun u after' hu _ => ?_) fun u after' hu hfalse => ?_
  · rw [htest] at hu
    cases hu
    exact h'
  · rw [htest] at hu
    cases hu
    rw [htrue] at hfalse
    cases hfalse

/-! ### Evaluation -/

/-- What an accessor reads is not evaluated, and it is the same. -/
theorem Expr.VariesAll.sourceName?_eq {arguments arguments' : List Expr}
    (h : Expr.VariesAll env memory arguments arguments')
    (hlength : arguments'.length = arguments.length) :
    sourceName? arguments' = sourceName? arguments := by
  cases h with
  | nil => rfl
  | @cons _ e e' rest rest' he _ =>
      match rest, rest', hlength with
      | [], [], _ => cases he <;> rfl
      | _ :: _, _ :: _, _ => simp only [sourceName?]

/-- A function of one number is not carried out on any other number of them. -/
theorem Expr.evaluate_call_of_length_ne {callee : String} {f : MathFunction}
    {arguments : List Expr} (hcallee : Builtin.ofName? callee = some (.math f))
    (hcount : arguments.length ≠ 1) :
    (Expr.call callee arguments).evaluate env = throw (.arity callee arguments.length) := by
  simp only [Expr.evaluate, hcallee]
  split
  · next argument => exact absurd rfl hcount
  · rfl

/-- A function of one number is evaluated alike on arguments that vary if they are evaluated
alike. -/
theorem Expr.evaluate_math_of_varies {callee : String} {f : MathFunction}
    {arguments arguments' : List Expr} (hcallee : Builtin.ofName? callee = some (.math f))
    (each : ∀ e ∈ arguments, ∀ e', Expr.Varies env memory e e' →
      (e'.evaluate env).run memory = (e.evaluate env).run memory)
    (h : Expr.VariesAll env memory arguments arguments')
    (hlength : arguments'.length = arguments.length) :
    ((Expr.call callee arguments').evaluate env).run memory =
      ((Expr.call callee arguments).evaluate env).run memory := by
  by_cases hcount : arguments.length = 1
  · obtain ⟨argument, rfl⟩ := List.length_eq_one_iff.mp hcount
    obtain ⟨argument', rfl⟩ := List.length_eq_one_iff.mp (hlength.trans hcount)
    cases h with
    | cons hargument =>
        simp only [Expr.evaluate, hcallee]
        exact run_bind_congr (each argument List.mem_cons_self _ hargument) fun _ _ _ => rfl
  · rw [evaluate_call_of_length_ne hcallee hcount,
      evaluate_call_of_length_ne hcallee (hlength ▸ hcount), hlength]

/-- Several trees that vary are evaluated alike if each of them is. -/
theorem Expr.evaluateAll_of_varies {es es' : List Expr}
    (each : ∀ e ∈ es, ∀ (e' : Expr) (memory : Memory), Expr.Varies env memory e e' →
      (e'.evaluate env).run memory = (e.evaluate env).run memory) {memory : Memory}
    (h : Expr.VariesAll env memory es es') :
    (Expr.evaluateAll env es').run memory = (Expr.evaluateAll env es).run memory := by
  induction es generalizing es' memory with
  | nil => cases h; rfl
  | cons e rest ih =>
      cases h with
      | cons he hrest =>
          rw [Expr.evaluateAll, Expr.evaluateAll]
          refine run_bind_congr (each e List.mem_cons_self _ memory he) fun v after hv =>
            run_bind_congr (ih ?_ (hrest v after hv)) fun _ _ _ => rfl
          exact fun a ha => each a (List.mem_cons_of_mem _ ha)

/-- **Trees that differ only in operands that are not taken are evaluated alike**: with one
value or one fault, and to one memory. -/
theorem Expr.evaluate_of_varies (e : Expr) {e' : Expr} {memory : Memory}
    (h : Expr.Varies env memory e e') :
    (e'.evaluate env).run memory = (e.evaluate env).run memory := by
  induction e using Expr.inductionOn generalizing e' memory with
  | number | text | boolean | symbol => cases h; rfl
  | unary op operand ih =>
      cases h with
      | same => rfl
      | unary hoperand =>
          rw [Expr.evaluate, Expr.evaluate]
          exact run_bind_congr (ih hoperand) fun _ _ _ => rfl
  | binary op left right ihl ihr =>
      cases h with
      | same => rfl
      | binary hleft hright =>
          rw [Expr.evaluate, Expr.evaluate]
          refine run_bind_congr (ihl hleft) fun a after ha => ?_
          exact run_bind_congr (ihr (hright a after ha)) fun _ _ _ => rfl
  | logical op left right ihl ihr =>
      cases h with
      | same => rfl
      | logical hleft hright =>
          rw [Expr.evaluate, Expr.evaluate]
          refine run_bind_congr (ihl hleft) fun a after ha => ?_
          split
          · rfl
          · next hopen =>
            rw [Bool.not_eq_true] at hopen
            exact ihr (hright a after ha hopen)
  | conditional test consequent iht ihc =>
      cases h with
      | same => rfl
      | conditional htest hconsequent =>
          rw [Expr.evaluate, Expr.evaluate]
          refine run_bind_congr (iht htest) fun t after ht => ?_
          split
          · next htrue => exact ihc (hconsequent t after ht htrue)
          · rfl
  | alternative test consequent alternate iht ihc iha =>
      cases h with
      | same => rfl
      | alternative htest hconsequent halternate =>
          rw [Expr.evaluate, Expr.evaluate]
          refine run_bind_congr (iht htest) fun t after ht => ?_
          split
          · next htrue => exact ihc (hconsequent t after ht htrue)
          · next hfalse =>
            rw [Bool.not_eq_true] at hfalse
            exact iha (halternate t after ht hfalse)
  | call callee arguments ih =>
      cases h with
      | same => rfl
      | unknown hcallee => simp only [Expr.evaluate, hcallee]
      | arity hcallee hcount hlength =>
          rw [Expr.evaluate_call_of_length_ne hcallee hcount,
            Expr.evaluate_call_of_length_ne hcallee (hlength ▸ hcount), hlength]
      | call harguments hlength =>
          cases hcallee : Builtin.ofName? callee with
          | none => simp only [Expr.evaluate, hcallee]
          | some builtin =>
              cases builtin with
              | math f =>
                  exact Expr.evaluate_math_of_varies hcallee (fun e he _ => ih e he) harguments
                    hlength
              | parameterValue =>
                  simp only [Expr.evaluate, hcallee, accessed, harguments.sourceName?_eq hlength]
              | parameterAcquisitionStatus =>
                  simp only [Expr.evaluate, hcallee, accessed, harguments.sourceName?_eq hlength]
              | print =>
                  simp only [Expr.evaluate, hcallee]
                  exact run_bind_congr (Expr.evaluateAll_of_varies
                    (fun a ha _ _ => ih a ha) harguments) fun _ _ _ => rfl
  | assignment target value ih =>
      cases h with
      | same => rfl
      | assignment hvalue =>
          rw [Expr.evaluate, Expr.evaluate]
          exact run_bind_congr (ih hvalue) fun _ _ _ => rfl

/-- Statements that vary are evaluated alike. -/
theorem evaluateStatements_of_varies {es es' : List Expr} {memory : Memory} (value : Value)
    (h : Expr.VariesAll env memory es es') :
    (evaluateStatements env value es').run memory =
      (evaluateStatements env value es).run memory := by
  induction es generalizing es' memory value with
  | nil => cases h; rfl
  | cons e rest ih =>
      cases h with
      | cons he hrest =>
          rw [evaluateStatements, evaluateStatements]
          exact run_bind_congr (e.evaluate_of_varies he) fun v after hv => ih v (hrest v after hv)

/-- Formulas of one dialect whose statements differ only in operands that are not taken. -/
structure Varies (bindings : Bindings) (memory : Memory) (f g : Formula) : Prop where
  dialect : g.dialect = f.dialect
  statements : Expr.VariesAll ⟨f.dialect, bindings⟩ memory f.statements g.statements

/-- Formulas that vary have one value and leave one memory. -/
theorem evaluate_of_varies {f g : Formula} {bindings : Bindings} {memory : Memory}
    (h : f.Varies bindings memory g) : g.evaluate bindings memory = f.evaluate bindings memory := by
  rw [evaluate, evaluate, h.dialect]
  exact evaluateStatements_of_varies .undefined h.statements

end Formula

namespace LiveFormula

variable {f : LiveFormula} {g : Formula}

/-- **What an evaluation does not take is irrelevant**: with other operands in the places that
it passes over, a formula gives the same value or the same failure, assigns the same symbols and
writes the same lines. -/
theorem run_of_varies (h : f.formula.Varies f.bindings ⟨f.symbols, []⟩ g) :
    (f.withFormula g).run.result = f.run.result ∧
      (f.withFormula g).run.formula.symbols = f.run.formula.symbols ∧
      (f.withFormula g).run.log = f.run.log := by
  have heval : g.evaluate f.bindings ⟨f.symbols, []⟩ =
      f.formula.evaluate f.bindings ⟨f.symbols, []⟩ := Formula.evaluate_of_varies h
  simp only [run, withFormula, heval, and_self]

/-- The formula `ready = true; ready || nope(); ready ? 'on' : print('off')`. -/
def readied : Formula :=
  ⟨.legacy, [.assignment "ready" (.boolean true),
    .logical .or (.symbol "ready") (.call "nope" []),
    .conditional (.symbol "ready") (.text "on") (some (.call "print" [.text "off"]))]⟩

/-- The formula `ready = true; ready || (ready = false); ready ? 'on' : nope()`. -/
def readiedOtherwise : Formula :=
  ⟨.legacy, [.assignment "ready" (.boolean true),
    .logical .or (.symbol "ready") (.assignment "ready" (.boolean false)),
    .conditional (.symbol "ready") (.text "on") (some (.call "nope" []))]⟩

/-- The first statement settles what the others take. -/
theorem run_of_varies_readied :
    readied.Varies blank.bindings ⟨blank.symbols, []⟩ readiedOtherwise ∧
      (blank.withFormula readiedOtherwise).run.result = .ok (.text "on") ∧
      (blank.withFormula readiedOtherwise).run.formula.assigned? "ready" = some (.boolean true) ∧
      (blank.withFormula readiedOtherwise).run.log = [] := by
  have hvaries : readied.Varies blank.bindings ⟨blank.symbols, []⟩ readiedOtherwise := by
    refine ⟨rfl, .cons (.same _ _) ?_⟩
    rintro v after ⟨⟩
    refine .cons (.of_decided rfl rfl (.same _ _) _ _) ?_
    rintro v after ⟨⟩
    refine .cons (.of_truthy rfl rfl (.same _ _) (.same _ _) _ _) ?_
    rintro v after ⟨⟩
    exact .nil _
  obtain ⟨hresult, hsymbols, hlog⟩ := run_of_varies (f := blank.withFormula readied) hvaries
  refine ⟨hvaries, hresult, ?_, hlog⟩
  unfold assigned?
  exact congrArg (·.find? "ready") hsymbols

end LiveFormula

end Dashboard
