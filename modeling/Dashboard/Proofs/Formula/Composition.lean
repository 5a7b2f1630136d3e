import Dashboard.Proofs.Formula.Consultation

/-!
# What Holds of Every Evaluation

An evaluation is put together from a few computations: it looks a symbol up, assigns to one,
prints a line, gives a value or meets a fault. A property that holds of a look-up, a line and a
value, and of a sequence whose parts have it, is **compositional**. A compositional property
holds of the evaluation of every tree, as long as it holds of the assignments to the symbols
that the tree assigns, and of the faults that its calls are to blame for.

## Main results

* `Compositional.evaluate` — the evaluation of a tree.
* `Compositional.evaluateStatements` — the evaluation of statements.
-/

namespace Dashboard.Formula

/-! ### Faults of a tree -/

/-- The calls that are **to blame** for a fault. -/
inductive CallFault.Blames : CallFault → Expr → Prop
  | unknownFunction {callee : String} {arguments : List Expr} :
      Builtin.ofName? callee = none →
      Blames (.unknownFunction callee) (.call callee arguments)
  | arity {callee : String} {arguments : List Expr} {f : MathFunction} :
      Builtin.ofName? callee = some (.math f) → arguments.length ≠ 1 →
      Blames (.arity callee arguments.length) (.call callee arguments)
  | badArgument {callee : String} {arguments : List Expr} :
      isAccessor callee = true → sourceName? arguments = none →
      Blames (.badArgument callee) (.call callee arguments)

/-- A tree may fail with a fault if one of its nodes is to blame for it. -/
def Expr.MayFail (e : Expr) (fault : CallFault) : Prop :=
  ∃ node ∈ e.nodes, fault.Blames node

/-- What a part may fail with, the whole may fail with. -/
theorem Expr.MayFail.mono {part e : Expr} {fault : CallFault} (h : part.MayFail fault)
    (hnodes : part.nodes ⊆ e.nodes) : e.MayFail fault := by
  obtain ⟨node, hnode, hblames⟩ := h
  exact ⟨node, hnodes hnode, hblames⟩

/-- The nodes of several trees are those of one of them. -/
theorem Expr.nodesOfAll_eq_flatMap (es : List Expr) :
    Expr.nodesOfAll es = es.flatMap Expr.nodes := by
  induction es with
  | nil => rfl
  | cons e rest ih => rw [Expr.nodesOfAll, ih, List.flatMap_cons]

/-- The nodes of one of several trees are nodes of all of them. -/
theorem Expr.nodes_subset_nodesOfAll {e : Expr} {es : List Expr} (h : e ∈ es) :
    e.nodes ⊆ Expr.nodesOfAll es := by
  rw [Expr.nodesOfAll_eq_flatMap]
  exact fun node hnode => List.mem_flatMap.mpr ⟨e, h, hnode⟩

/-! ### Compositional properties -/

/-- A property of computations that sequences inherit from their parts. -/
structure Compositional (env : Environment) (P : {α : Type} → Evaluator α → Prop) : Prop where
  pure {α : Type} (a : α) : P (pure a : Evaluator α)
  lookUp (name : String) : P (env.lookUp name)
  print (line : String) : P (print line)
  bind {α β : Type} {x : Evaluator α} {k : α → Evaluator β} :
    P x → (∀ a, P (k a)) → P (x >>= k)

variable {env : Environment} {P : {α : Type} → Evaluator α → Prop}

namespace Compositional

/-- What is made of a result inherits the property. -/
theorem map (h : Compositional env P) {α β : Type} {x : Evaluator α} (f : α → β) (hx : P x) :
    P (f <$> x) := by
  rw [← bind_pure_comp]
  exact h.bind hx fun _ => h.pure _

omit env in
/-- So does a computation that is one of two. -/
theorem ite {α : Type} {p : Prop} [Decidable p] {x y : Evaluator α} (hx : P x) (hy : P y) :
    P (if p then x else y) := by
  split
  · exact hx
  · exact hy

/-- The value of an accessor inherits the property: it looks up its source, or it has none to look
up. -/
theorem accessed (h : Compositional env P) {callee : String} {arguments : List Expr}
    (hthrow : sourceName? arguments = none →
      P (throw (.badArgument callee) : Evaluator String)) : P (accessed callee arguments) := by
  rw [Formula.accessed]
  split
  · exact h.pure _
  · next hnone => exact hthrow hnone

/-! ### Trees -/

/-- The evaluation of several trees inherits the property, by induction on their list. -/
theorem evaluateAll (h : Compositional env P) {es : List Expr}
    (each : ∀ e ∈ es, P (e.evaluate env)) : P (Expr.evaluateAll env es) := by
  induction es with
  | nil => exact h.pure _
  | cons e rest ih =>
      rw [Expr.evaluateAll]
      refine h.bind (each e List.mem_cons_self) fun v => ?_
      refine h.bind (ih fun e he => each e (List.mem_cons_of_mem _ he)) fun vs => ?_
      exact h.pure _

/-- **A compositional property holds of the evaluation of a tree**, if it holds of its
assignments and of the faults that it may fail with. -/
theorem evaluate (h : Compositional env P) (e : Expr)
    (hassign : ∀ target ∈ e.targets, ∀ value, P (assign target value))
    (hthrow : ∀ {α : Type} (fault : CallFault), e.MayFail fault →
      P (throw fault : Evaluator α)) : P (e.evaluate env) := by
  induction e using Expr.inductionOn with
  | number | text | boolean => exact h.pure _
  | symbol name => exact h.lookUp name
  | unary op operand ih =>
      rw [Expr.evaluate]
      refine h.bind (ih hassign fun fault hfault => hthrow fault (hfault.mono ?_)) ?_
      · simp [Expr.nodes]
      · exact fun _ => h.pure _
  | binary op left right ihl ihr =>
      simp only [Expr.targets, List.forall_mem_append] at hassign
      rw [Expr.evaluate]
      refine h.bind (ihl hassign.1 fun fault hfault => hthrow fault (hfault.mono ?_)) fun a =>
        h.bind (ihr hassign.2 fun fault hfault => hthrow fault (hfault.mono ?_)) fun b => h.pure _
      all_goals simp [Expr.nodes]
  | logical op left right ihl ihr =>
      simp only [Expr.targets, List.forall_mem_append] at hassign
      rw [Expr.evaluate]
      refine h.bind (ihl hassign.1 fun fault hfault => hthrow fault (hfault.mono ?_)) fun a =>
        ite (h.pure _) (ihr hassign.2 fun fault hfault => hthrow fault (hfault.mono ?_))
      all_goals simp [Expr.nodes]
  | conditional test consequent iht ihc =>
      simp only [Expr.targets, List.forall_mem_append] at hassign
      rw [Expr.evaluate]
      refine h.bind (iht hassign.1 fun fault hfault => hthrow fault (hfault.mono ?_)) fun t =>
        ite (ihc hassign.2 fun fault hfault => hthrow fault (hfault.mono ?_)) (h.pure _)
      all_goals simp [Expr.nodes]
  | alternative test consequent alternate iht ihc iha =>
      simp only [Expr.targets, List.forall_mem_append] at hassign
      rw [Expr.evaluate]
      refine h.bind (iht hassign.1.1 fun fault hfault => hthrow fault (hfault.mono ?_)) fun t =>
        ite (ihc hassign.1.2 fun fault hfault => hthrow fault (hfault.mono ?_))
          (iha hassign.2 fun fault hfault => hthrow fault (hfault.mono ?_))
      all_goals exact fun node hnode => by simp [Expr.nodes, hnode]
  | call callee arguments ih =>
      have hself : ∀ {α : Type} {fault : CallFault}, fault.Blames (.call callee arguments) →
          P (throw fault : Evaluator α) :=
        fun hblames => hthrow _ ⟨_, Expr.mem_nodes_self _, hblames⟩
      simp only [Expr.evaluate]
      cases hcallee : Builtin.ofName? callee with
      | none => exact hself (.unknownFunction hcallee)
      | some b =>
          rw [Expr.targets, isAccessor, hcallee, Option.any_some] at hassign
          have hall (harguments : ∀ target ∈ Expr.targetsOfAll arguments, ∀ value,
              P (assign target value)) : ∀ a ∈ arguments, P (a.evaluate env) := by
            rw [Expr.targetsOfAll_eq_flatMap] at harguments
            refine fun a ha => ih a ha ?_ fun fault hfault => hthrow fault (hfault.mono ?_)
            · exact fun target htarget =>
                harguments target (List.mem_flatMap.mpr ⟨a, ha, htarget⟩)
            · exact List.subset_cons_of_subset _ (Expr.nodes_subset_nodesOfAll ha)
          cases b with
          | parameterValue =>
              exact h.map _ (h.accessed fun hnone =>
                hself (.badArgument (isAccessor_iff.mpr (.inl hcallee)) hnone))
          | parameterAcquisitionStatus =>
              exact h.map _ (h.accessed fun hnone =>
                hself (.badArgument (isAccessor_iff.mpr (.inr hcallee)) hnone))
          | print =>
              refine h.bind (h.evaluateAll (hall hassign)) fun values => ?_
              exact h.bind (h.print _) fun _ => h.pure _
          | math f =>
              dsimp only
              split
              · next argument =>
                exact h.bind (hall hassign argument List.mem_cons_self) fun _ => h.pure _
              · next harity =>
                refine hself (.arity hcallee fun hone => ?_)
                obtain ⟨argument, rfl⟩ := List.length_eq_one_iff.mp hone
                exact harity argument rfl
  | assignment target value ih =>
      simp only [Expr.targets, List.forall_mem_append] at hassign
      rw [Expr.evaluate]
      refine h.bind (ih hassign.1 fun fault hfault => hthrow fault (hfault.mono ?_)) fun v => ?_
      · simp [Expr.nodes]
      · exact h.bind (hassign.2 target (List.mem_singleton_self target) v) fun _ => h.pure _

/-- **So it does of the evaluation of statements.** -/
theorem evaluateStatements (h : Compositional env P) {es : List Expr}
    (hassign : ∀ e ∈ es, ∀ target ∈ e.targets, ∀ value, P (assign target value))
    (hthrow : ∀ {α : Type}, ∀ e ∈ es, ∀ fault : CallFault, e.MayFail fault →
      P (throw fault : Evaluator α)) (value : Value) : P (evaluateStatements env value es) := by
  induction es generalizing value with
  | nil => exact h.pure _
  | cons e rest ih =>
      rw [Formula.evaluateStatements]
      refine h.bind (h.evaluate e (hassign e List.mem_cons_self) ?_) fun v => ?_
      · exact fun fault => hthrow e List.mem_cons_self fault
      · exact ih (fun e he => hassign e (List.mem_cons_of_mem _ he))
          (fun e he => hthrow e (List.mem_cons_of_mem _ he)) v

end Compositional

end Dashboard.Formula
