import Dashboard.Formula.Evaluation
import Dashboard.Proofs.Formula.WellFormed

/-!
# What an Evaluation Looks Up

An evaluation consults a data source when it comes to an accessor, or to a symbol that has
not been assigned by then. `Consults` says which names these are, for one evaluation in one
memory: it follows the evaluation into the branch that is taken, and past a short circuit
only if the left operand leaves it open. This is what the evaluation depends on, and
nothing else is.

## Main results

* `run_bind_eq_ok` — a sequence of evaluations succeeds if its two parts do.
* `Expr.evaluate_congr` — an evaluation depends only on the readings of what it consults.
* `evaluate_formula_congr` — the same of a formula.
-/

namespace Dashboard.Formula

/-! ### Sequences of evaluations -/

/-- Two sequences end alike if their first parts do, and their second parts do from there
on. -/
theorem run_bind_congr {α β : Type} {x y : Evaluator α} {k l : α → Evaluator β}
    {memory : Memory} (hx : y.run memory = x.run memory)
    (hk : ∀ a after, x.run memory = (.ok a, after) → (l a).run after = (k a).run after) :
    (y >>= l).run memory = (x >>= k).run memory := by
  simp only [ExceptT.run_bind]
  simp only [bind, StateT.bind, hx]
  cases hrun : x.run memory with
  | mk result after =>
      cases result with
      | error fault => rfl
      | ok a => exact hk a after hrun

/-- A sequence succeeds exactly if its first part does and its second part does from there
on. -/
theorem run_bind_eq_ok {α β : Type} {x : Evaluator α} {k : α → Evaluator β}
    {memory last : Memory} {b : β} :
    (x >>= k).run memory = (.ok b, last) ↔
      ∃ a after, x.run memory = (.ok a, after) ∧ (k a).run after = (.ok b, last) := by
  simp only [ExceptT.run_bind]
  simp only [bind, StateT.bind]
  cases hrun : x.run memory with
  | mk result after =>
      cases result with
      | error fault =>
          constructor
          · intro h
            cases h
          · rintro ⟨a, after', ha, -⟩
            cases ha
      | ok a =>
          constructor
          · intro h
            exact ⟨a, after, rfl, h⟩
          · rintro ⟨a', after', ha, h⟩
            cases ha
            exact h

/-- A sequence whose first part succeeds goes on from there. -/
theorem run_bind_of_eq_ok {α β : Type} {x : Evaluator α} {k : α → Evaluator β}
    {memory after : Memory} {a : α} (h : x.run memory = (.ok a, after)) :
    (x >>= k).run memory = (k a).run after := by
  simp only [ExceptT.run_bind]
  simp only [bind, StateT.bind, h]

/-- A last statement is evaluated where the others have led. -/
theorem evaluateStatements_concat {env : Environment} {init : List Expr} {e : Expr}
    {value v : Value} {memory after : Memory}
    (h : (evaluateStatements env value init).run memory = (.ok v, after)) :
    (evaluateStatements env value (init ++ [e])).run memory = (e.evaluate env).run after := by
  induction init generalizing value memory with
  | nil =>
      cases h
      simp only [List.nil_append, evaluateStatements, bind_pure]
  | cons first rest ih =>
      rw [evaluateStatements, run_bind_eq_ok] at h
      obtain ⟨w, middle, hw, h⟩ := h
      rw [List.cons_append, evaluateStatements, run_bind_of_eq_ok hw]
      exact ih h

/-! ### Consulting -/

mutual

/-- Whether the evaluation of a tree in a memory consults the data source of a name. -/
def Expr.Consults (env : Environment) : Expr → Memory → String → Prop
  | .symbol s, memory, name => s = name ∧ memory.symbols.find? s = none
  | .unary _ operand, memory, name => operand.Consults env memory name
  | .binary _ left right, memory, name =>
    left.Consults env memory name ∨
      ∃ a after, (left.evaluate env).run memory = (.ok a, after) ∧
        right.Consults env after name
  | .logical op left right, memory, name =>
    left.Consults env memory name ∨
      ∃ a after, (left.evaluate env).run memory = (.ok a, after) ∧ op.decidedBy a = false ∧
        right.Consults env after name
  | .conditional test consequent none, memory, name =>
    test.Consults env memory name ∨
      ∃ t after, (test.evaluate env).run memory = (.ok t, after) ∧ t.truthy = true ∧
        consequent.Consults env after name
  | .conditional test consequent (some alternate), memory, name =>
    test.Consults env memory name ∨
      ∃ t after, (test.evaluate env).run memory = (.ok t, after) ∧
        (t.truthy = true ∧ consequent.Consults env after name ∨
          t.truthy = false ∧ alternate.Consults env after name)
  | .call callee arguments, memory, name =>
    match Builtin.ofName? callee with
    | none => False
    | some (.math _) =>
      match arguments with
      | [argument] => argument.Consults env memory name
      | _ => False
    | some .parameterValue => sourceName? arguments = some name
    | some .parameterAcquisitionStatus => sourceName? arguments = some name
    | some .print => Expr.ConsultsAll env arguments memory name
  | .assignment _ value, memory, name => value.Consults env memory name
  | _, _, _ => False

/-- Whether the evaluation of several trees, one after the other, consults the data source
of a name. -/
def Expr.ConsultsAll (env : Environment) : List Expr → Memory → String → Prop
  | [], _, _ => False
  | e :: rest, memory, name =>
    e.Consults env memory name ∨
      ∃ v after, (e.evaluate env).run memory = (.ok v, after) ∧
        Expr.ConsultsAll env rest after name

end

/-- Whether the evaluation of a formula consults the data source of a name. -/
def Consults (f : Formula) (bindings : Bindings) (memory : Memory) (name : String) : Prop :=
  Expr.ConsultsAll ⟨f.dialect, bindings⟩ f.statements memory name

variable {env env' : Environment}

/-- What a call consults depends on the function that is called. -/
theorem Expr.consults_call {callee : String} {arguments : List Expr} {memory : Memory}
    {name : String} :
    (Expr.call callee arguments).Consults env memory name =
      match Builtin.ofName? callee with
      | none => False
      | some (.math _) =>
        match arguments with
        | [argument] => argument.Consults env memory name
        | _ => False
      | some .parameterValue => sourceName? arguments = some name
      | some .parameterAcquisitionStatus => sourceName? arguments = some name
      | some .print => Expr.ConsultsAll env arguments memory name := by
  rw [Expr.Consults.eq_def]

/-! ### An evaluation depends on what it consults -/

/-- The value of a data source is a matter of its reading. -/
theorem value_congr {name : String} (h : env'.reading? name = env.reading? name) :
    env'.value name = env.value name := by
  rw [Environment.value, Environment.value, h]

/-- The quality of a data source is a matter of its reading. -/
theorem quality_congr {name : String} (h : env'.reading? name = env.reading? name) :
    env'.quality name = env.quality name := by
  rw [Environment.quality, Environment.quality, h]

/-- The value of a symbol is what was assigned to it, or else a matter of its reading. -/
theorem lookUp_congr {name : String} {memory : Memory}
    (h : memory.symbols.find? name = none → env'.reading? name = env.reading? name) :
    (env'.lookUp name).run memory = (env.lookUp name).run memory := by
  cases hfind : memory.symbols.find? name with
  | none =>
      have hvalue := value_congr (h hfind)
      show (_, _) = (_, _)
      rw [hvalue]
  | some v =>
      show (Except.ok ((memory.symbols.find? name).getD (env'.value name)), memory) =
        (Except.ok ((memory.symbols.find? name).getD (env.value name)), memory)
      rw [hfind]
      rfl

/-- Several evaluations depend on what they consult if each of them does. -/
theorem Expr.evaluateAll_congr {es : List Expr}
    (each : ∀ e ∈ es, ∀ memory : Memory,
      (∀ name, e.Consults env memory name → env'.reading? name = env.reading? name) →
      (e.evaluate env').run memory = (e.evaluate env).run memory) {memory : Memory}
    (h : ∀ name, Expr.ConsultsAll env es memory name →
      env'.reading? name = env.reading? name) :
    (Expr.evaluateAll env' es).run memory = (Expr.evaluateAll env es).run memory := by
  induction es generalizing memory with
  | nil => rfl
  | cons e rest ih =>
      rw [Expr.evaluateAll, Expr.evaluateAll]
      refine run_bind_congr (each e List.mem_cons_self memory fun name hname => h name (.inl hname))
        fun v after hv => run_bind_congr (ih ?_ ?_) fun _ _ _ => rfl
      · exact fun e he => each e (List.mem_cons_of_mem _ he)
      · exact fun name hname => h name (.inr ⟨v, after, hv, hname⟩)

/-- **An evaluation depends only on the readings of what it consults.** -/
theorem Expr.evaluate_congr (e : Expr) {memory : Memory}
    (h : ∀ name, e.Consults env memory name → env'.reading? name = env.reading? name) :
    (e.evaluate env').run memory = (e.evaluate env).run memory := by
  induction e using Expr.inductionOn generalizing memory with
  | number | text | boolean => rfl
  | symbol s =>
      simp only [Expr.Consults] at h
      exact lookUp_congr fun hfind => h s ⟨rfl, hfind⟩
  | unary op operand ih =>
      simp only [Expr.Consults] at h
      rw [Expr.evaluate, Expr.evaluate]
      exact run_bind_congr (ih h) fun _ _ _ => rfl
  | binary op left right ihl ihr =>
      simp only [Expr.Consults] at h
      rw [Expr.evaluate, Expr.evaluate]
      refine run_bind_congr (ihl fun name hname => h name (.inl hname)) fun a after ha => ?_
      refine run_bind_congr (ihr fun name hname => h name (.inr ⟨a, after, ha, hname⟩)) ?_
      exact fun _ _ _ => rfl
  | logical op left right ihl ihr =>
      simp only [Expr.Consults] at h
      rw [Expr.evaluate, Expr.evaluate]
      refine run_bind_congr (ihl fun name hname => h name (.inl hname)) fun a after ha => ?_
      split
      · rfl
      · next hopen =>
        rw [Bool.not_eq_true] at hopen
        exact ihr fun name hname => h name (.inr ⟨a, after, ha, hopen, hname⟩)
  | conditional test consequent iht ihc =>
      simp only [Expr.Consults] at h
      rw [Expr.evaluate, Expr.evaluate]
      refine run_bind_congr (iht fun name hname => h name (.inl hname)) fun t after ht => ?_
      split
      · next htrue => exact ihc fun name hname => h name (.inr ⟨t, after, ht, htrue, hname⟩)
      · rfl
  | alternative test consequent alternate iht ihc iha =>
      simp only [Expr.Consults] at h
      rw [Expr.evaluate, Expr.evaluate]
      refine run_bind_congr (iht fun name hname => h name (.inl hname)) fun t after ht => ?_
      split
      · next htrue =>
        exact ihc fun name hname => h name (.inr ⟨t, after, ht, .inl ⟨htrue, hname⟩⟩)
      · next hfalse =>
        rw [Bool.not_eq_true] at hfalse
        exact iha fun name hname => h name (.inr ⟨t, after, ht, .inr ⟨hfalse, hname⟩⟩)
  | call callee arguments ih =>
      simp only [Expr.consults_call] at h
      simp only [Expr.evaluate]
      split
      · rfl
      · next hcallee =>
        rw [hcallee] at h
        split
        · next argument =>
          exact run_bind_congr (ih argument List.mem_cons_self h) fun _ _ _ => rfl
        · rfl
      · next hcallee =>
        rw [hcallee] at h
        cases hname : sourceName? arguments with
        | none => rw [accessed, hname]; rfl
        | some name =>
            have hvalue := value_congr (h name hname)
            rw [accessed, hname]
            exact congrArg (fun v => (Except.ok v, memory)) hvalue
      · next hcallee =>
        rw [hcallee] at h
        cases hname : sourceName? arguments with
        | none => rw [accessed, hname]; rfl
        | some name =>
            have hquality := quality_congr (h name hname)
            rw [accessed, hname]
            exact congrArg (fun v => (Except.ok v, memory)) hquality
      · next hcallee =>
        rw [hcallee] at h
        exact run_bind_congr (Expr.evaluateAll_congr (fun a ha _ => ih a ha) h) fun _ _ _ => rfl
  | assignment target value ih =>
      simp only [Expr.Consults] at h
      rw [Expr.evaluate, Expr.evaluate]
      exact run_bind_congr (ih h) fun _ _ _ => rfl

/-- Statements depend only on the readings of what they consult. -/
theorem evaluateStatements_congr {es : List Expr} {memory : Memory} (value : Value)
    (h : ∀ name, Expr.ConsultsAll env es memory name →
      env'.reading? name = env.reading? name) :
    (evaluateStatements env' value es).run memory =
      (evaluateStatements env value es).run memory := by
  induction es generalizing memory value with
  | nil => rfl
  | cons e rest ih =>
      rw [evaluateStatements, evaluateStatements]
      refine run_bind_congr (e.evaluate_congr fun name hname => h name (.inl hname)) ?_
      intro v after hv
      exact ih v fun name hname => h name (.inr ⟨v, after, hv, hname⟩)

/-- **A formula depends only on the readings of what it consults.** -/
theorem evaluate_formula_congr {f : Formula} {bindings bindings' : Bindings} {memory : Memory}
    (h : ∀ name, f.Consults bindings memory name →
      Environment.reading? ⟨f.dialect, bindings'⟩ name =
        Environment.reading? ⟨f.dialect, bindings⟩ name) :
    f.evaluate bindings' memory = f.evaluate bindings memory :=
  evaluateStatements_congr .undefined h

end Dashboard.Formula
