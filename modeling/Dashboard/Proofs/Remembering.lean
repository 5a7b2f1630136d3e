import Mathlib.Data.List.Induction

/-!
# What is Remembered of a Sequence of Operations

Where a later word replaces an earlier one, what is left of a sequence of operations is the
last thing that was said. An operation may say something, or make everything forgotten that
was said before, or do neither. A state that keeps such a memory is described by what one
operation does to it: what it holds after a whole sequence is then what is remembered.

## Main results

* `remembered?_swap`, `remembered?_twice` — order and repetition of what is said do not matter.
* `view_foldl` — a view that each step changes by what is said holds what is remembered.
* `remembered?_eq` — where only one thing is said and nothing forgotten, that is remembered.
-/

namespace Dashboard

variable {α β : Type}

/-- What an operation makes of what is remembered: it says something new, or makes forget, or
does neither. -/
def remember (tells : α → Option β) (forgets : α → Bool) (last : Option β) (operation : α) :
    Option β :=
  if forgets operation then none else (tells operation).or last

/-- What is remembered of a sequence of operations: the last thing that one of them says and
that none of the later ones makes forget. -/
def remembered? (tells : α → Option β) (forgets : α → Bool) (start : Option β)
    (operations : List α) : Option β :=
  operations.foldl (remember tells forgets) start

variable {tells : α → Option β} {forgets : α → Bool}

/-- Operations one after the other. -/
theorem remembered?_append (start : Option β) (operations more : List α) :
    remembered? tells forgets start (operations ++ more) =
      remembered? tells forgets (remembered? tells forgets start operations) more :=
  List.foldl_append

/-- The last operation comes on top of the others. -/
theorem remembered?_concat (start : Option β) (operations : List α) (operation : α) :
    remembered? tells forgets start (operations ++ [operation]) =
      remember tells forgets (remembered? tells forgets start operations) operation :=
  List.foldl_append

/-! ### Order and repetition -/

section Two

variable {first second operation : α}

/-- What neither tells nor forgets leaves the memory as it is. -/
theorem remember_of_silent (htells : tells operation = none) (hkeeps : forgets operation = false)
    (last : Option β) : remember tells forgets last operation = last := by
  rw [remember, hkeeps, htells, if_neg Bool.false_ne_true, Option.none_or]

/-- The order of two operations does not matter if one of them says nothing. -/
theorem remembered?_swap (htells : tells first = none ∨ tells second = none)
    (hfirst : forgets first = false) (hsecond : forgets second = false) (last : Option β) :
    remembered? tells forgets last [first, second] =
      remembered? tells forgets last [second, first] := by
  show remember tells forgets (remember tells forgets last first) second =
    remember tells forgets (remember tells forgets last second) first
  rcases htells with hsilent | hsilent
  · rw [remember_of_silent hsilent hfirst, remember_of_silent hsilent hfirst]
  · rw [remember_of_silent hsilent hsecond, remember_of_silent hsilent hsecond]

/-- What is said twice is remembered once. -/
theorem remembered?_twice (hkeeps : forgets operation = false) (last : Option β) :
    remembered? tells forgets last [operation, operation] =
      remembered? tells forgets last [operation] := by
  show remember tells forgets (remember tells forgets last operation) operation =
    remember tells forgets last operation
  rw [remember, remember, hkeeps, if_neg Bool.false_ne_true, if_neg Bool.false_ne_true,
    ← Option.or_assoc, Option.or_self]

end Two

/-! ### What is left of a sequence -/

/-- A view of a state that each step changes by what the operation says holds what is
remembered. -/
theorem view_foldl {σ : Type} {step : σ → α → σ} (view : σ → Option β)
    (h : ∀ s operation, view (step s operation) = remember tells forgets (view s) operation)
    (s : σ) (operations : List α) :
    view (operations.foldl step s) = remembered? tells forgets (view s) operations :=
  (List.foldl_hom view fun s operation => (h s operation).symm).symm

/-- What is remembered was said. -/
theorem exists_of_remembered? {operations : List α} {b : β}
    (h : remembered? tells forgets none operations = some b) :
    ∃ operation ∈ operations, tells operation = some b := by
  induction operations using List.reverseRecOn with
  | nil => cases h
  | append_singleton operations operation ih =>
      rw [remembered?_concat, remember] at h
      split at h
      · cases h
      · rcases Option.or_eq_some_iff.mp h with htells | ⟨-, hbefore⟩
        · exact ⟨operation, List.mem_append_right _ (List.mem_singleton_self _), htells⟩
        · obtain ⟨earlier, hearlier, htells⟩ := ih hbefore
          exact ⟨earlier, List.mem_append_left _ hearlier, htells⟩

/-- Where nothing is forgotten, something is remembered of what was said. -/
theorem remembered?_ne_none {operations : List α} {operation : α} {b : β}
    (hmem : operation ∈ operations) (htells : tells operation = some b)
    (hkeeps : ∀ operation ∈ operations, forgets operation = false) :
    remembered? tells forgets none operations ≠ none := by
  induction operations using List.reverseRecOn with
  | nil => cases hmem
  | append_singleton operations last ih =>
      have hlast := hkeeps last (List.mem_append_right _ (List.mem_singleton_self _))
      rw [remembered?_concat, remember, hlast, if_neg Bool.false_ne_true, ne_eq,
        Option.or_eq_none_iff]
      rintro ⟨hnothing, hbefore⟩
      rcases List.mem_append.mp hmem with hmem | hmem
      · exact ih hmem (fun other hother => hkeeps other (List.mem_append_left _ hother)) hbefore
      · rw [List.mem_singleton] at hmem
        rw [← hmem, htells] at hnothing
        cases hnothing

/-- Where nothing is forgotten and only one thing is said, that is remembered. -/
theorem remembered?_eq {operations : List α} {last : Option β}
    (hkeeps : ∀ operation ∈ operations, forgets operation = false)
    (h : ∀ b, (∃ operation ∈ operations, tells operation = some b) ↔ last = some b) :
    remembered? tells forgets none operations = last := by
  cases hremembered : remembered? tells forgets none operations with
  | some b => exact ((h b).mp (exists_of_remembered? hremembered)).symm
  | none =>
      cases last with
      | none => rfl
      | some b =>
          obtain ⟨operation, hmem, htells⟩ := (h b).mpr rfl
          exact absurd hremembered (remembered?_ne_none hmem htells hkeeps)

end Dashboard
