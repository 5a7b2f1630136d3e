import Dashboard.ParseCache

/-!
# What a Parse Cache Keeps

A parse cache is **faithful** if every formula that it keeps is the one that its source text
spells. A new cache is faithful, and getting a formula keeps it so. What is got from a
faithful cache is what reading the source text gives, whether it was kept or not.

## Main results

* `cases_of_get` — what is got was kept before, or was read and is kept now.
* `Faithful.map_get` — getting a formula is reading it, and fails where reading fails.
* `Faithful.get` — a cache is still faithful after something was got from it.
-/

namespace Dashboard

namespace ParseCache

variable {cache cache' : ParseCache} {source : String} {dialect : Formula.Dialect}
  {shared : SharedFormula}

/-- The cache after a formula was read that it did not keep. -/
def keep (cache : ParseCache) (source : String) (dialect : Formula.Dialect)
    (formula : Formula) : ParseCache :=
  { cache with
    entries := cache.entries.insert (dialect, source) ⟨formula, cache.issued⟩
    issued := cache.issued + 1 }

/-- What is not kept is read, and kept from then on. -/
theorem get_of_find?_eq_none (h : cache.entries.find? (dialect, source) = none) :
    cache.get source dialect =
      (Formula.ofSource ⟨dialect, cache.maxDepth⟩ source).map fun formula =>
        (⟨formula, cache.issued⟩, cache.keep source dialect formula) := by
  rw [get, h]
  cases Formula.ofSource ⟨dialect, cache.maxDepth⟩ source with
  | error failure => rfl
  | ok formula => rfl

/-- **What is got was kept before, or was read and is kept now.** -/
theorem cases_of_get (h : cache.get source dialect = .ok (shared, cache')) :
    (cache.entries.find? (dialect, source) = some shared ∧ cache' = cache) ∨
      ∃ formula, Formula.ofSource ⟨dialect, cache.maxDepth⟩ source = .ok formula ∧
        shared = ⟨formula, cache.issued⟩ ∧ cache' = cache.keep source dialect formula := by
  cases hfind : cache.entries.find? (dialect, source) with
  | some kept =>
      rw [get_of_find? hfind] at h
      cases h
      exact .inl ⟨rfl, rfl⟩
  | none =>
      rw [get_of_find?_eq_none hfind] at h
      cases hread : Formula.ofSource ⟨dialect, cache.maxDepth⟩ source with
      | error failure => rw [hread] at h; cases h
      | ok formula =>
          rw [hread] at h
          cases h
          exact .inr ⟨formula, rfl, rfl, rfl⟩

/-- Getting a formula does not change how deep formulas may nest. -/
theorem maxDepth_of_get (h : cache.get source dialect = .ok (shared, cache')) :
    cache'.maxDepth = cache.maxDepth := by
  obtain ⟨-, rfl⟩ | ⟨formula, -, -, rfl⟩ := cases_of_get h
  · rfl
  · rfl

/-! ### Faithful caches -/

/-- Every formula that is kept is the one that its source text spells. -/
def Faithful (cache : ParseCache) : Prop :=
  ∀ dialect source shared, cache.entries.find? (dialect, source) = some shared →
    Formula.ofSource ⟨dialect, cache.maxDepth⟩ source = .ok shared.formula

/-- A new cache keeps nothing, so it is faithful. -/
theorem faithful_withMaxDepth (maxDepth : Nat) : (withMaxDepth maxDepth).Faithful := by
  intro dialect source shared h
  rw [withMaxDepth, Table.find?_empty] at h
  cases h

/-- **Getting a formula from a faithful cache is reading it.** -/
theorem Faithful.map_get (h : cache.Faithful) (source : String) (dialect : Formula.Dialect) :
    (cache.get source dialect).map (fun got => got.1.formula) =
      Formula.ofSource ⟨dialect, cache.maxDepth⟩ source := by
  cases hfind : cache.entries.find? (dialect, source) with
  | some shared =>
      rw [get_of_find? hfind]
      exact (h dialect source shared hfind).symm
  | none =>
      rw [get_of_find?_eq_none hfind]
      cases Formula.ofSource ⟨dialect, cache.maxDepth⟩ source with
      | error failure => rfl
      | ok formula => rfl

/-- **A faithful cache stays faithful when a formula is got from it**: what is stored then is what
was just read. -/
theorem Faithful.get (h : cache.Faithful)
    (hget : cache.get source dialect = .ok (shared, cache')) : cache'.Faithful := by
  obtain ⟨-, rfl⟩ | ⟨formula, hread, -, rfl⟩ := cases_of_get hget
  · exact h
  · intro dialect' source' shared' hfind
    rw [keep, Table.find?_insert] at hfind
    split at hfind
    · next hkey =>
        cases hkey
        cases hfind
        exact hread
    · exact h dialect' source' shared' hfind

end ParseCache

end Dashboard
