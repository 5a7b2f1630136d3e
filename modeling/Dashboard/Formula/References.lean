import Dashboard.Formula.Builtin
import Dashboard.Formula.Environment

/-!
# References of a Formula

Before a formula can be evaluated, its display has to ask for the data sources that it
reads. Reading is traced in the order of evaluation: a symbol that an earlier part of the
formula assigns is not a data source from there on. Both branches of a conditional and both
operands of a short circuit count as evaluated.

## Main results

* `mem_parameters_iff` — the parameters are the identifiers of what is read.
* `nodup_parameters` — no identifier is listed twice.
-/

namespace Dashboard.Formula

mutual

/-- The symbols that a tree assigns, in the order of evaluation. -/
def Expr.targets : Expr → List String
  | .unary _ operand => operand.targets
  | .binary _ left right => left.targets ++ right.targets
  | .logical _ left right => left.targets ++ right.targets
  | .conditional test consequent none => test.targets ++ consequent.targets
  | .conditional test consequent (some alternate) =>
    test.targets ++ consequent.targets ++ alternate.targets
  | .call callee arguments =>
    if isAccessor callee then [] else Expr.targetsOfAll arguments
  | .assignment target value => value.targets ++ [target]
  | _ => []

/-- The symbols that several trees assign, one tree after the other. -/
def Expr.targetsOfAll : List Expr → List String
  | [] => []
  | e :: rest => e.targets ++ Expr.targetsOfAll rest

end

mutual

/-- The names of the data sources that a tree reads, in the order of evaluation, given the
symbols assigned before it. An accessor reads what its argument names, assigned or not. -/
def Expr.reads : Expr → List String → List String
  | .symbol name, bound => if bound.contains name then [] else [name]
  | .unary _ operand, bound => operand.reads bound
  | .binary _ left right, bound => left.reads bound ++ right.reads (bound ++ left.targets)
  | .logical _ left right, bound => left.reads bound ++ right.reads (bound ++ left.targets)
  | .conditional test consequent none, bound =>
    test.reads bound ++ consequent.reads (bound ++ test.targets)
  | .conditional test consequent (some alternate), bound =>
    test.reads bound ++ consequent.reads (bound ++ test.targets) ++
      alternate.reads (bound ++ test.targets ++ consequent.targets)
  | .call callee arguments, bound =>
    if isAccessor callee then (sourceName? arguments).toList
    else Expr.readsOfAll arguments bound
  | .assignment _ value, bound => value.reads bound
  | _, _ => []

/-- The names of the data sources that several trees read, one tree after the other. -/
def Expr.readsOfAll : List Expr → List String → List String
  | [], _ => []
  | e :: rest, bound => e.reads bound ++ Expr.readsOfAll rest (bound ++ e.targets)

end

/-- The names of the data sources that a formula reads. -/
def reads (f : Formula) : List String :=
  Expr.readsOfAll f.statements []

/-- The identifiers that a formula needs, each once, in the order in which it first reads
them. Names that stand for no identifier are left out. -/
def parameters (f : Formula) (bindings : Bindings) : List String :=
  (f.reads.filterMap (Environment.sourceId? ⟨f.dialect, bindings⟩)).eraseDups

/-- The first name that a formula reads and that stands for no identifier. -/
def unresolved? (f : Formula) (bindings : Bindings) : Option String :=
  f.reads.find? fun name => (Environment.sourceId? ⟨f.dialect, bindings⟩ name).isNone

/-! ### The list of parameters -/

/-- The parameters are the identifiers of the names that a formula reads. -/
theorem mem_parameters_iff {f : Formula} {bindings : Bindings} {id : String} :
    id ∈ f.parameters bindings ↔
      ∃ name ∈ f.reads, Environment.sourceId? ⟨f.dialect, bindings⟩ name = some id := by
  simp [parameters, List.mem_filterMap]

/-- What a formula needs is a matter of the mappings. -/
theorem parameters_eq_of_resolve? {bindings bindings' : Bindings}
    (h : ∀ path, bindings'.resolve? path = bindings.resolve? path) (f : Formula) :
    f.parameters bindings' = f.parameters bindings := by
  rw [parameters, parameters, funext (Environment.sourceId?_congr h f.dialect)]

/-- No parameter is listed twice. -/
theorem nodup_parameters (f : Formula) (bindings : Bindings) :
    (f.parameters bindings).Nodup := by
  unfold parameters
  generalize f.reads.filterMap _ = ids
  induction h : ids.length using Nat.strongRecOn generalizing ids with
  | ind n ih =>
    cases ids with
    | nil => simp
    | cons a rest =>
      rw [List.eraseDups_cons, List.nodup_cons]
      refine ⟨by simp, ih _ ?_ _ rfl⟩
      subst h
      exact Nat.lt_succ_of_le (List.length_filter_le ..)

end Dashboard.Formula
