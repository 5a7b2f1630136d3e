import Dashboard.Bindings
import Dashboard.Formula.Tree

/-!
# What a Formula is Evaluated in

An environment is what a formula may look at while it is evaluated: its dialect and the
bindings. In the simplified dialect a name without a mapping is itself an identifier; in
the legacy dialect it stands for nothing.

## Main results

* `Environment.reading?_congr` — what a name reads is a matter of the mappings and the readings.
-/

namespace Dashboard.Formula

/-- A dialect and bindings. -/
structure Environment where
  dialect : Dialect
  bindings : Bindings

namespace Environment

/-- The identifier of the data source that a name speaks of. -/
def sourceId? (env : Environment) (name : String) : Option String :=
  match env.dialect with
  | .legacy => env.bindings.resolve? name
  | .simplified => some (env.bindings.resolveOrSelf name)

/-- The latest reading of the data source that a name speaks of. -/
def reading? (env : Environment) (name : String) : Option Reading :=
  (env.sourceId? name).bind env.bindings.reading?

/-- The value of the data source that a name speaks of, undefined before its first
reading. -/
def value (env : Environment) (name : String) : Value :=
  ((env.reading? name).map fun r => Value.ofScalar r.value).getD .undefined

/-- The quality of the data source that a name speaks of, as a word: `null` if the reading
does not mention one, undefined before the first reading. -/
def quality (env : Environment) (name : String) : Value :=
  match env.reading? name with
  | none => .undefined
  | some r => (r.acquisition.map fun a => Value.text a.word).getD .null

section Views

variable {bindings bindings' : Bindings}
  (hresolve : ∀ path, bindings'.resolve? path = bindings.resolve? path)

include hresolve

/-- The identifiers that names speak of are a matter of the mappings. -/
theorem sourceId?_congr (dialect : Dialect) (name : String) :
    sourceId? ⟨dialect, bindings'⟩ name = sourceId? ⟨dialect, bindings⟩ name := by
  cases dialect with
  | legacy => exact hresolve name
  | simplified => exact congrArg (fun id => some (id.getD name)) (hresolve name)

/-- The readings of names are a matter of the mappings and the readings. -/
theorem reading?_congr (hreading : ∀ id, bindings'.reading? id = bindings.reading? id)
    (dialect : Dialect) (name : String) :
    reading? ⟨dialect, bindings'⟩ name = reading? ⟨dialect, bindings⟩ name := by
  rw [reading?, reading?, sourceId?_congr hresolve]
  exact congrArg _ (funext hreading)

end Views

end Environment

end Dashboard.Formula
