import Dashboard.LiveFormula
import Dashboard.Proofs.Formula.Composition

/-!
# Formulas without Assignments

A tree without assignments leaves the symbols alone, whether its evaluation succeeds or
fails. In the simplified dialect no tree assigns anything, so a simplified formula never gets
symbols of its own: it starts every evaluation as it started the first.

## Main results

* `assignsNothing_bind` — a sequence assigns nothing if its parts assign nothing.
* `assignsNothing_evaluateStatements` — statements without assignments assign nothing.
* `symbols_run` — a formula without assignments keeps its symbols.
-/

namespace Dashboard

namespace Formula

/-! ### Computations that assign nothing -/

/-- A computation that leaves the symbols alone, whether it succeeds or fails. -/
def AssignsNothing {α : Type} (x : Evaluator α) : Prop :=
  ∀ memory, (x.run memory).2.symbols = memory.symbols

/-- A sequence assigns nothing if its parts assign nothing. -/
theorem assignsNothing_bind {α β : Type} {x : Evaluator α} {k : α → Evaluator β}
    (hx : AssignsNothing x) (hk : ∀ a, AssignsNothing (k a)) : AssignsNothing (x >>= k) := by
  intro memory
  have hfirst := hx memory
  simp only [ExceptT.run_bind]
  simp only [bind, StateT.bind]
  cases hrun : x.run memory with
  | mk result after =>
      rw [hrun] at hfirst
      cases result with
      | error fault => exact hfirst
      | ok a => exact (hk a after).trans hfirst

/-- What is put together from computations that assign nothing assigns nothing. -/
theorem compositional_assignsNothing (env : Environment) : Compositional env AssignsNothing where
  pure _ _ := rfl
  lookUp _ _ := rfl
  print _ _ := rfl
  bind := assignsNothing_bind

/-- **Statements without assignments assign nothing.** -/
theorem assignsNothing_evaluateStatements {env : Environment} {es : List Expr}
    (h : ∀ e ∈ es, e.targets = []) (value : Value) :
    AssignsNothing (evaluateStatements env value es) := by
  refine (compositional_assignsNothing env).evaluateStatements ?_ (fun _ _ _ _ _ => rfl) value
  intro e he target htarget
  rw [h e he] at htarget
  cases htarget

end Formula

/-! ### Formulas -/

namespace LiveFormula

/-- **A formula without assignments keeps its symbols**, even if its evaluation fails. -/
theorem symbols_run {f : LiveFormula} (h : ∀ e ∈ f.formula.statements, e.targets = []) :
    f.run.formula.symbols = f.symbols :=
  Formula.assignsNothing_evaluateStatements h .undefined ⟨f.symbols, []⟩

/-- A formula of the simplified dialect assigns nothing. -/
theorem targets_of_simplified {options : Formula.Options} {source : String} {formula : Formula}
    (hdialect : options.dialect = .simplified)
    (hsource : Formula.ofSource options source = .ok formula) :
    ∀ e ∈ formula.statements, e.targets = [] := by
  obtain ⟨-, hwf⟩ := Formula.wellFormed_of_parse (Formula.parse_of_ofSource hsource)
  rw [hdialect] at hwf
  exact fun e he => Formula.targets_of_wellFormed_simplified (hwf e he)

end LiveFormula

end Dashboard
