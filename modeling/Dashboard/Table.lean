/-!
# Tables

A table maps keys to values and remembers the order in which its keys were first entered.
Entering a key again replaces its value and keeps its place. The entries are a list whose
keys are pairwise distinct, and this invariant is part of the type.

The view of a table is `find?`. Every operation is described by what it does to this view
and to the list of keys.

## Main results

* `Table.find?_insert` — an insertion changes the view at its key and nowhere else.
* `Table.keys_insert` — a new key comes last, an old one keeps its place.
* `Table.find?_erase` — a removal changes the view at its key and nowhere else.
* `Table.ofList_entries` — a table is the table of its entries.
* `Table.mem_entries_iff`, `Table.mem_keys_iff` — the entries and the keys are those in view.
-/

namespace Dashboard

variable {κ α : Type}

/-- Entries with pairwise distinct keys, in the order in which the keys were entered. -/
structure Table (κ α : Type) where
  entries : List (κ × α)
  nodup : (entries.map Prod.fst).Nodup

namespace Table

/-! ### Entries as a list -/

variable [DecidableEq κ]

/-- The value of a key in a list of entries. -/
def lookup (k : κ) : List (κ × α) → Option α
  | [] => none
  | (k', v) :: rest => if k' = k then some v else lookup k rest

/-- Replaces the value of a key in place, or adds the key at the end. -/
def put (k : κ) (v : α) : List (κ × α) → List (κ × α)
  | [] => [(k, v)]
  | (k', v') :: rest => if k' = k then (k, v) :: rest else (k', v') :: put k v rest

/-- Under a key is the last value that was put there. -/
theorem lookup_put (k k' : κ) (v : α) (entries : List (κ × α)) :
    lookup k' (put k v entries) = if k = k' then some v else lookup k' entries := by
  induction entries with
  | nil => simp [put, lookup]
  | cons e rest ih =>
    obtain ⟨a, b⟩ := e
    by_cases h : a = k
    · subst h; by_cases h' : a = k' <;> simp [put, lookup, h']
    · by_cases h' : a = k'
      · subst h'; simp [put, lookup, h, Ne.symm h]
      · simp [put, lookup, h, h', ih]

/-- A new key comes last, and a key that is there keeps its place. -/
theorem map_fst_put (k : κ) (v : α) (entries : List (κ × α)) :
    (put k v entries).map Prod.fst =
      if k ∈ entries.map Prod.fst then entries.map Prod.fst
      else entries.map Prod.fst ++ [k] := by
  induction entries with
  | nil => simp [put]
  | cons e rest ih =>
    obtain ⟨a, b⟩ := e
    by_cases h : a = k
    · subst h; simp [put]
    · simp only [put, h, ↓reduceIte, List.map_cons, ih, List.mem_cons, Ne.symm h, false_or]
      split <;> simp

/-- Keys stay distinct. -/
theorem nodup_map_fst_put (k : κ) (v : α) {entries : List (κ × α)}
    (h : (entries.map Prod.fst).Nodup) : ((put k v entries).map Prod.fst).Nodup := by
  rw [map_fst_put]
  split
  · exact h
  · rename_i hk
    rw [List.nodup_append]
    exact ⟨h, by simp, fun a ha b hb => by
      rw [List.mem_singleton] at hb
      subst hb
      exact fun hab => hk (hab ▸ ha)⟩

/-- Nothing is found under a key just if no entry has it. -/
theorem lookup_eq_none_iff {k : κ} {entries : List (κ × α)} :
    lookup k entries = none ↔ k ∉ entries.map Prod.fst := by
  induction entries with
  | nil => simp [lookup]
  | cons e rest ih =>
    obtain ⟨a, b⟩ := e
    by_cases h : a = k
    · subst h; simp [lookup]
    · simp only [lookup, h, ↓reduceIte, ih, List.map_cons, List.mem_cons, Ne.symm h, false_or]

/-- If the keys are distinct, what is found under a key is the value of its entry. -/
theorem lookup_eq_some_iff {k : κ} {v : α} {entries : List (κ × α)}
    (h : (entries.map Prod.fst).Nodup) : lookup k entries = some v ↔ (k, v) ∈ entries := by
  induction entries with
  | nil => simp [lookup]
  | cons e rest ih =>
    obtain ⟨a, b⟩ := e
    obtain ⟨hnew, hrest⟩ := List.nodup_cons.mp h
    by_cases ha : a = k
    · subst ha
      have hother : (a, v) ∉ rest := fun hmem => hnew (List.mem_map.mpr ⟨_, hmem, rfl⟩)
      simp [lookup, hother, eq_comm]
    · simp [lookup, ha, Ne.symm ha, ih hrest]

/-- Without the entries of a key nothing is found under it, and all else is found as before. -/
theorem lookup_filter_ne (k k' : κ) (entries : List (κ × α)) :
    lookup k' (entries.filter fun e => e.1 ≠ k) = if k = k' then none else lookup k' entries := by
  induction entries with
  | nil => simp [lookup]
  | cons e rest ih =>
    obtain ⟨a, b⟩ := e
    by_cases h : a = k
    · subst h
      by_cases h' : a = k' <;> simp_all [lookup]
    · by_cases h' : k = k'
      · subst h'; simp_all [lookup]
      · simp_all [lookup]

/-! ### Operations -/

/-- The table without entries. -/
def empty : Table κ α := ⟨[], List.nodup_nil⟩

instance : EmptyCollection (Table κ α) := ⟨empty⟩

instance : Inhabited (Table κ α) := ⟨empty⟩

/-- The value of a key. -/
def find? (t : Table κ α) (k : κ) : Option α :=
  lookup k t.entries

/-- Gives a key a value; a key that already has one keeps its place. -/
def insert (t : Table κ α) (k : κ) (v : α) : Table κ α :=
  ⟨put k v t.entries, nodup_map_fst_put k v t.nodup⟩

/-- Takes a key and its value out. -/
def erase (t : Table κ α) (k : κ) : Table κ α :=
  ⟨t.entries.filter fun e => e.1 ≠ k,
    t.nodup.sublist (List.Sublist.map _ List.filter_sublist)⟩

/-- The keys, in the order in which they were entered. -/
def keys (t : Table κ α) : List κ :=
  t.entries.map Prod.fst

/-- The number of keys. -/
def size (t : Table κ α) : Nat :=
  t.entries.length

/-- Whether a key has a value. -/
def contains (t : Table κ α) (k : κ) : Bool :=
  (t.find? k).isSome

/-- The table of a list of entries; of two entries with the same key the later one wins. -/
def ofList (entries : List (κ × α)) : Table κ α :=
  entries.foldl (fun t e => t.insert e.1 e.2) empty

/-! ### The view -/

/-- Nothing is in the empty table. -/
@[simp] theorem find?_empty (k : κ) : (empty : Table κ α).find? k = none := rfl

/-- Under a key is the last value that was inserted. -/
theorem find?_insert (t : Table κ α) (k k' : κ) (v : α) :
    (t.insert k v).find? k' = if k = k' then some v else t.find? k' :=
  lookup_put k k' v t.entries

/-- What was just inserted is found. -/
@[simp] theorem find?_insert_self (t : Table κ α) (k : κ) (v : α) :
    (t.insert k v).find? k = some v := by
  simp [find?_insert]

/-- Under the other keys everything is found as before. -/
theorem find?_insert_of_ne (t : Table κ α) {k k' : κ} (v : α) (h : k ≠ k') :
    (t.insert k v).find? k' = t.find? k' := by
  simp [find?_insert, h]

/-- Under an erased key nothing is found, and all else is found as before. -/
theorem find?_erase (t : Table κ α) (k k' : κ) :
    (t.erase k).find? k' = if k = k' then none else t.find? k' :=
  lookup_filter_ne k k' t.entries

/-- A new key comes last, and a key that is there keeps its place. -/
theorem keys_insert (t : Table κ α) (k : κ) (v : α) :
    (t.insert k v).keys = if k ∈ t.keys then t.keys else t.keys ++ [k] :=
  map_fst_put k v t.entries

/-- An entry with a new key is added at the end. -/
theorem put_of_not_mem {k : κ} (v : α) {entries : List (κ × α)}
    (h : k ∉ entries.map Prod.fst) : put k v entries = entries ++ [(k, v)] := by
  induction entries with
  | nil => rfl
  | cons e rest ih =>
    rw [List.map_cons, List.mem_cons, not_or] at h
    rw [put, if_neg (Ne.symm h.1), ih h.2, List.cons_append]

/-- Entries with distinct keys are entered one after the other. -/
theorem entries_foldl_insert {t : Table κ α} {entries : List (κ × α)}
    (h : ((t.entries ++ entries).map Prod.fst).Nodup) :
    (entries.foldl (fun t e => t.insert e.1 e.2) t).entries = t.entries ++ entries := by
  induction entries generalizing t with
  | nil => simp
  | cons e rest ih =>
    have hnew : e.1 ∉ t.entries.map Prod.fst := by
      rw [List.map_append, List.nodup_append] at h
      exact fun hmem => h.2.2 e.1 hmem e.1 (by simp) rfl
    have hput : (t.insert e.1 e.2).entries = t.entries ++ [e] := put_of_not_mem e.2 hnew
    have happend : t.entries ++ e :: rest = (t.insert e.1 e.2).entries ++ rest := by
      rw [hput, List.append_assoc, List.singleton_append]
    rw [happend] at h ⊢
    exact ih h

/-- A table is the table of its entries. -/
theorem ofList_entries (t : Table κ α) : ofList t.entries = t := by
  have h : (ofList t.entries).entries = t.entries := entries_foldl_insert t.nodup
  rw [Table.mk.injEq]
  exact h

/-- The entries of a table are what is found in it. -/
theorem mem_entries_iff {t : Table κ α} {k : κ} {v : α} :
    (k, v) ∈ t.entries ↔ t.find? k = some v :=
  (lookup_eq_some_iff t.nodup).symm

/-- The keys of a table are those under which something is found. -/
theorem mem_keys_iff {t : Table κ α} {k : κ} : k ∈ t.keys ↔ (t.find? k).isSome = true := by
  have : lookup k t.entries = none ↔ k ∉ t.entries.map Prod.fst := lookup_eq_none_iff
  unfold keys find?
  cases h : lookup k t.entries <;> simp_all

end Table

end Dashboard
