import Dashboard.Failure

/-!
# The Sizing of a Feed

A feed holds a bounded number of realtime entries and calls for attention when a watermark
below that bound is reached. Its policy says whether entries with the same key are one
entry or several.

## Main results

* `validate_eq_ok_iff` — the sizings that make sense.
-/

namespace Dashboard

/-- What becomes of entries with the same key. -/
inductive Policy where
  /-- The later one replaces the earlier one. -/
  | byId
  /-- Both are kept. -/
  | append
  deriving DecidableEq, Repr, Inhabited

/-- The word for a policy. -/
def Policy.word : Policy → String
  | .byId => "by_id"
  | .append => "append"

/-- Both policies. -/
def Policy.all : List Policy :=
  [.byId, .append]

/-- The policy that a word names. -/
def Policy.ofWord? (word : String) : Option Policy :=
  all.find? fun p => p.word = word

/-- Every policy is recognised by its word. -/
@[simp] theorem Policy.ofWord?_word (p : Policy) : ofWord? p.word = some p := by
  cases p <;> decide

/-- Bounds on the realtime entries of a feed, and its policy. -/
structure Sizing where
  /-- How many realtime entries are held. -/
  capacity : Nat
  /-- With how many of them the feed calls for attention. -/
  watermark : Nat
  policy : Policy
  deriving DecidableEq, Repr

namespace Sizing

/-- A feed holds at least one entry, and its watermark lies below its capacity. -/
def validate (s : Sizing) : Except Failure Unit :=
  if s.capacity = 0 then .error (.settings "buffer capacity must be greater than zero")
  else if s.capacity ≤ s.watermark then
    .error (.settings ("buffer watermark " ++ toString s.watermark ++
      " must be below capacity " ++ toString s.capacity))
  else .ok ()

/-- A sizing is accepted just if its watermark is below its capacity. -/
theorem validate_eq_ok_iff {s : Sizing} : s.validate = .ok () ↔ s.watermark < s.capacity := by
  unfold validate
  split
  · simp; omega
  · split
    · simp; omega
    · simp; omega

end Sizing

end Dashboard
