import Dashboard.Formula.Grammar
import Dashboard.Table

/-!
# The Parse Cache

A parse cache keeps formulas by their dialect and source text, so that equal sources are
read once and share one formula. A source that cannot be read is not kept. Every formula
that is read gets a number of its own, by which shared formulas can be told from formulas
that are merely equal.

## Main results

* `get_of_find?` — a formula that is kept is got without reading its source.
-/

namespace Dashboard

/-- A formula that is shared by all who got it, and its number. -/
structure SharedFormula where
  formula : Formula
  number : Nat
  deriving BEq

/-- Formulas by dialect and source text. -/
structure ParseCache where
  maxDepth : Nat
  entries : Table (Formula.Dialect × String) SharedFormula
  /-- How many formulas have been read. -/
  issued : Nat

namespace ParseCache

/-- A cache without entries, whose formulas nest at most this deep. -/
def withMaxDepth (maxDepth : Nat) : ParseCache := ⟨maxDepth, .empty, 0⟩

/-- A cache without entries. -/
def empty : ParseCache := withMaxDepth Formula.defaultMaxDepth

instance : Inhabited ParseCache := ⟨empty⟩

/-- The number of entries. -/
def size (cache : ParseCache) : Nat :=
  cache.entries.size

/-- The formula of a source text, read now unless it is kept already. -/
def get (cache : ParseCache) (source : String) (dialect : Formula.Dialect) :
    Except Failure (SharedFormula × ParseCache) :=
  match cache.entries.find? (dialect, source) with
  | some shared => .ok (shared, cache)
  | none => do
    let formula ← Formula.ofSource ⟨dialect, cache.maxDepth⟩ source
    let shared := ⟨formula, cache.issued⟩
    return (shared, { cache with
      entries := cache.entries.insert (dialect, source) shared
      issued := cache.issued + 1 })

/-- Drops the entry of a source text. -/
def invalidate (cache : ParseCache) (source : String) (dialect : Formula.Dialect) : ParseCache :=
  { cache with entries := cache.entries.erase (dialect, source) }

/-- Drops all entries. -/
def clear (cache : ParseCache) : ParseCache :=
  { cache with entries := .empty }

/-- A formula that is kept is got without reading its source, and the cache stays as it is. -/
theorem get_of_find? {cache : ParseCache} {source : String} {dialect : Formula.Dialect}
    {shared : SharedFormula} (h : cache.entries.find? (dialect, source) = some shared) :
    cache.get source dialect = .ok (shared, cache) := by
  simp [get, h]

end ParseCache

end Dashboard
