import Dashboard.Failure

/-!
# Scrollback

A scrollback keeps the entries that were last pushed, at most its capacity of them. When it
is full, the oldest entry makes room for the next one.

## Main results

* `chronological_push` — a push adds the entry at the end and may lose the oldest ones.
-/

namespace Dashboard

/-- The entries that were last pushed, oldest first. -/
structure Scrollback (α : Type) where
  capacity : Nat
  entries : List α
  /-- Whether something has changed since the entries were last polled. -/
  dirty : Bool

namespace Scrollback

variable {α : Type}

/-- A scrollback without entries; it has to hold at least one. -/
def ofCapacity (capacity : Nat) : Except Failure (Scrollback α) :=
  if capacity = 0 then .error (.settings "scrollback capacity must be greater than zero")
  else .ok ⟨capacity, [], false⟩

/-- Adds an entry; the oldest one goes if the scrollback is full. -/
def push (s : Scrollback α) (entry : α) : Scrollback α :=
  { s with
    entries := (if s.capacity ≤ s.entries.length then s.entries.tail else s.entries) ++ [entry]
    dirty := true }

/-- The entries, oldest first. -/
def chronological (s : Scrollback α) : List α :=
  s.entries

/-- The entries, newest first. -/
def snapshot (s : Scrollback α) : List α :=
  s.entries.reverse

/-- The entries, newest first, if something has changed since they were last polled. -/
def poll (s : Scrollback α) : Option (List α) × Scrollback α :=
  if s.dirty then (some s.snapshot, { s with dirty := false }) else (none, s)

/-- Removes all entries. -/
def reset (s : Scrollback α) : Scrollback α :=
  { s with entries := [], dirty := true }

/-- The entry that was pushed last. -/
def last? (s : Scrollback α) : Option α :=
  s.entries.getLast?

/-- The number of entries. -/
def size (s : Scrollback α) : Nat :=
  s.entries.length

/-- A new entry comes last, and the oldest one goes if there was no room. -/
theorem chronological_push (s : Scrollback α) (entry : α)
    (pos : 0 < s.capacity) (h : s.entries.length ≤ s.capacity) :
    (s.push entry).chronological =
      (s.chronological ++ [entry]).drop (s.entries.length + 1 - s.capacity) := by
  unfold push chronological
  by_cases full : s.capacity ≤ s.entries.length
  · have : s.entries.length + 1 - s.capacity = 1 := by omega
    cases he : s.entries with
    | nil => simp [he] at full; omega
    | cons a rest => simp_all
  · have : s.entries.length + 1 - s.capacity = 0 := by omega
    simp [full, this]

end Scrollback

end Dashboard
