import Dashboard.Reading.Record

/-!
# Named Scalars

The columns of a row and the attributes of a command are scalars under names. They are kept
in ascending order of their names, so that two collections with the same contents are the
same, in whatever order the names came.

## Main results

* `pairwise_put` — names in order stay in order when one is entered.
-/

namespace Dashboard

/-- Scalars under names, the names ascending. -/
structure NamedScalars where
  entries : List (String × Scalar)
  ascending : entries.Pairwise fun a b => a.1 < b.1

namespace NamedScalars

/-- No names. -/
def empty : NamedScalars := ⟨[], .nil⟩

instance : Inhabited NamedScalars := ⟨empty⟩

instance : BEq NamedScalars := ⟨fun a b => a.entries == b.entries⟩

/-- Enters a name into ascending entries; a name that is there already gets the new
scalar. -/
def put (name : String) (s : Scalar) : List (String × Scalar) → List (String × Scalar)
  | [] => [(name, s)]
  | e :: rest =>
    if name < e.1 then (name, s) :: e :: rest
    else if name = e.1 then (name, s) :: rest
    else e :: put name s rest

/-- An entry of the new list is the new one or was there before. -/
theorem mem_put {name : String} {s : Scalar} {entries : List (String × Scalar)}
    {e : String × Scalar} (h : e ∈ put name s entries) : e = (name, s) ∨ e ∈ entries := by
  induction entries with
  | nil => simpa [put] using h
  | cons f rest ih =>
    unfold put at h
    split at h
    · simpa using h
    split at h
    · rcases List.mem_cons.mp h with h | h
      · exact .inl h
      · exact .inr (List.mem_cons_of_mem _ h)
    · rcases List.mem_cons.mp h with h | h
      · exact .inr (h ▸ List.mem_cons_self)
      · exact (ih h).imp id (List.mem_cons_of_mem _)

/-- Names in order stay in order when one is entered. -/
theorem pairwise_put (name : String) (s : Scalar) {entries : List (String × Scalar)}
    (h : entries.Pairwise fun a b => a.1 < b.1) :
    (put name s entries).Pairwise fun a b => a.1 < b.1 := by
  induction entries with
  | nil => simp [put]
  | cons e rest ih =>
    obtain ⟨first, others⟩ := List.pairwise_cons.mp h
    unfold put
    split
    · next less =>
      refine List.pairwise_cons.mpr ⟨?_, h⟩
      intro f hf
      rcases List.mem_cons.mp hf with rfl | hf
      · exact less
      · exact String.lt_trans less (first f hf)
    split
    · next same =>
      exact List.pairwise_cons.mpr ⟨fun f hf => by simpa [same] using first f hf, others⟩
    · next notLess notSame =>
      refine List.pairwise_cons.mpr ⟨?_, ih others⟩
      intro f hf
      rcases mem_put hf with rfl | hf
      · exact Std.lt_of_le_of_ne (String.not_lt.mp notLess) (Ne.symm notSame)
      · exact first f hf

/-- Enters a name; a name that is there already gets the new scalar. -/
def insert (named : NamedScalars) (name : String) (s : Scalar) : NamedScalars :=
  ⟨put name s named.entries, pairwise_put name s named.ascending⟩

/-- Named scalars as a document. -/
def toDocument (named : NamedScalars) : Document :=
  .table (named.entries.map fun e => (e.1, e.2.toDocument))

/-- The named scalars that a document holds; of two fields with the same name the later one
counts. -/
def ofDocument? : Document → Option NamedScalars
  | .table fields =>
    fields.foldlM (fun named field => (Scalar.ofDocument? field.2).map (named.insert field.1)) empty
  | _ => none

end NamedScalars

end Dashboard
