import Dashboard.Proofs.Document.Number

/-!
# What Is Written on One Line Is Read Back

A document in its compact form is read back as it was if its doubles are finite, its whole
numbers have 64 bits and nothing in it is broken. The items of a list and the fields of a table
follow one another with commas between them, so each of them ends where a comma or the end of
the list or table stands.

## Main results

* `Exact.readsAs_compact` — a document is read as its compact form says, wherever that form ends.
* `read?_compact` — what is written on one line is read back.
-/

namespace Dashboard.Json

/-- Documents whose compact form says exactly what they are. -/
inductive Exact : Document → Prop
  | null : Exact .null
  | boolean (b : Bool) : Exact (.boolean b)
  | integer {n : Nat} : n < UInt64.size → Exact (.integer n)
  | real {x : Float} : x.isFinite = true → Exact (.real x)
  | text (s : String) : Exact (.text s)
  | list {items : List Document} : (∀ d ∈ items, Exact d) → Exact (.list items)
  | table {fields : List (String × Document)} :
      (∀ field ∈ fields, Exact field.2) → Exact (.table fields)

/-- A finite double is read as the number that it is written as. -/
theorem readsAs_real {x : Float} (h : x.isFinite = true) : ReadsAs (number x) (.real x) := by
  obtain ⟨c, others, hform, hdigit | rfl⟩ := exists_number_cons h
  · exact readsAs_of_succ hform (isBlank_of_isDigit hdigit) (ne_of_isDigit hdigit (by decide))
      fun fuel _ hrest _ => value_real h fuel hrest
  · exact readsAs_of_succ hform (by decide) (by decide)
      fun fuel _ hrest _ => value_real h fuel hrest

/-- The forms of the items of a list, one by one. -/
theorem compactItems_eq_map (items : List Document) : compactItems items = items.map compact := by
  induction items with
  | nil => rfl
  | cons d others ih => rw [compactItems, ih, List.map_cons]

/-- The forms of the fields of a table, one by one. -/
theorem compactFields_eq_map (fields : List (String × Document)) :
    compactFields fields = fields.map (fieldForm "" compact) := by
  induction fields with
  | nil => rfl
  | cons field others ih =>
      rw [compactFields, ih, List.map_cons, fieldForm, String.empty_append]

/-- **A document is read as its compact form says**, wherever that form ends. -/
theorem Exact.readsAs_compact {d : Document} (h : Exact d) : ReadsAs (compact d) d := by
  induction h with
  | null => exact readsAs_null
  | boolean b => exact readsAs_boolean b
  | integer hn => exact readsAs_integer hn
  | real hx => exact readsAs_real hx
  | text s => exact readsAs_text s
  | @list items _ ih =>
      have hread := readsAs_list blank_empty ih
      rwa [← compactItems_eq_map, String.append_empty] at hread
  | @table fields _ ih =>
      have hread := readsAs_table compact blank_empty blank_empty ih
      rwa [← compactFields_eq_map, String.append_empty] at hread

/-- **What is written on one line is read back.** -/
theorem read?_compact {d : Document} (h : Exact d) : read? (compact d) = some d :=
  h.readsAs_compact.read?

end Dashboard.Json
