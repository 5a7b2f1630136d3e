import Dashboard.Proofs.Formula.Composition

/-!
# Earlier Lines of the Log

An evaluation adds lines to the log and never looks at those that are there. So what was
printed before it only stands in front of what it prints, and changes neither its result nor
what it assigns. An evaluation that goes on where another one ended can therefore be taken for
one with a log of its own.

## Main results

* `compositional_indifferent` — what is put together from computations that are indifferent to
  earlier lines is indifferent too.
* `indifferent_evaluateStatements` — the evaluation of statements is.
-/

namespace Dashboard.Formula

/-- A memory with lines in front of those that have been printed. -/
def Memory.behind (memory : Memory) (lines : List String) : Memory :=
  { memory with printed := lines ++ memory.printed }

/-- A computation that is indifferent to earlier lines: it leaves them where they are, and
does with them what it does without. -/
def Indifferent {α : Type} (x : Evaluator α) : Prop :=
  ∀ memory lines, x.run (memory.behind lines) = ((x.run memory).1, (x.run memory).2.behind lines)

/-- A line that is printed stands behind the earlier ones. -/
theorem indifferent_print (line : String) : Indifferent (print line) := by
  intro memory lines
  have happend : lines ++ memory.printed ++ [line] = lines ++ (memory.printed ++ [line]) :=
    List.append_assoc _ _ _
  exact congrArg (fun printed => (Except.ok (), { memory with printed })) happend

/-- A sequence is indifferent to earlier lines if its parts are. -/
theorem indifferent_bind {α β : Type} {x : Evaluator α} {k : α → Evaluator β}
    (hx : Indifferent x) (hk : ∀ a, Indifferent (k a)) : Indifferent (x >>= k) := by
  intro memory lines
  have hfirst := hx memory lines
  simp only [ExceptT.run_bind]
  simp only [bind, StateT.bind]
  rw [hfirst]
  cases hrun : x.run memory with
  | mk result after =>
      cases result with
      | error fault => rfl
      | ok a => exact hk a after lines

/-- Being indifferent to what was printed before is inherited by sequences. -/
theorem compositional_indifferent (env : Environment) : Compositional env Indifferent where
  pure _ _ _ := rfl
  lookUp _ _ _ := rfl
  print := indifferent_print
  bind := indifferent_bind

/-- **The evaluation of statements is indifferent to earlier lines.** -/
theorem indifferent_evaluateStatements (env : Environment) (value : Value) (es : List Expr) :
    Indifferent (evaluateStatements env value es) :=
  (compositional_indifferent env).evaluateStatements (fun _ _ _ _ _ _ _ => rfl)
    (fun _ _ _ _ _ _ => rfl) value

end Dashboard.Formula
