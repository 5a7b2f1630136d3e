import Dashboard.Proofs.Polling
import Dashboard.SampleStore

/-!
# What a Sample Store Keeps

A line plot pushes samples into its store and clears it; it does not know how the store decides
what to keep. This module says what was pushed into a store since it was cleared, and shows
what a scrollback keeps of it: the last entries, as many as its capacity. A scrollback makes
room for one entry at a time, so that nothing in it speaks of the last entries of a run; that
its entries are the last ones is the invariant (`Keeps`).

A scrollback that is driven as a sample store does what it does under its own operations, so
the same is true of it.

## Main results

* `Scrollback.Keeps.step` — an operation keeps the last entries.
* `Scrollback.after_asScrollback` — a store is driven by the operations of a scrollback.
* `Scrollback.shows_after` — what a scrollback shows after any operations.
-/

namespace Dashboard

/-! ### Stores in use -/

namespace SampleStore

/-- What a plot can do to its store. -/
inductive Operation where
  /-- Adds a sample. -/
  | push (sample : Sample)
  /-- Removes all samples. -/
  | clear

variable {σ : Type} [SampleStore σ]

/-- What an operation makes of a store. -/
def step (s : σ) : Operation → σ
  | .push sample => push s sample
  | .clear => clear s

/-- What a sequence of operations makes of a store. -/
def after (s : σ) (operations : List Operation) : σ :=
  operations.foldl step s

/-- What an operation makes of the samples that were pushed since the store was cleared. -/
def Operation.record (pushed : List Sample) : Operation → List Sample
  | .push sample => pushed ++ [sample]
  | .clear => []

/-- The samples that some operations push after the last clearing, in this order. -/
def pushed (operations : List Operation) : List Sample :=
  operations.foldl Operation.record []

end SampleStore

/-- A sample of a number of seconds after 1970. -/
def Sample.ofSeconds (seconds : Int) (value : Float) : Sample :=
  ⟨⟨seconds, 0⟩, value⟩

/-! ### Scrollbacks -/

namespace Scrollback

variable {α : Type}

/-- What an operation makes of the entries that were pushed since the last reset. -/
def Operation.record (pushed : List α) : Operation α → List α
  | .push entry => pushed ++ [entry]
  | .reset => []
  | .poll => pushed

/-- The entries that some operations push after the last reset, in this order. -/
def pushed (operations : List (Operation α)) : List α :=
  operations.foldl Operation.record []

/-- A scrollback of a capacity **keeps** the last of the entries that were pushed. -/
structure Keeps (s : Scrollback α) (capacity : Nat) (pushed : List α) : Prop where
  room : s.capacity = capacity
  entries : s.entries = pushed.drop (pushed.length - capacity)

namespace Keeps

variable {s : Scrollback α} {capacity : Nat} {entries : List α}

/-- A scrollback has as many entries as were pushed, up to its capacity. -/
theorem length_entries (h : s.Keeps capacity entries) :
    s.entries.length = min capacity entries.length := by
  rw [h.entries, List.length_drop]
  omega

/-- A push adds one entry behind the last ones, and the first of them goes if there are too
many. -/
theorem push (h : s.Keeps capacity entries) (pos : 0 < capacity) (entry : α) :
    (s.push entry).Keeps capacity (entries ++ [entry]) := by
  have hlength := h.length_entries
  refine ⟨h.room, ?_⟩
  have hpush := chronological_push s entry (by rw [h.room]; exact pos)
    (by rw [h.room]; omega)
  rw [chronological, chronological, h.room] at hpush
  have hdropped : entries.drop (entries.length - capacity) ++ [entry] =
      (entries ++ [entry]).drop (entries.length - capacity) :=
    (List.drop_append_of_le_length (by omega)).symm
  have hcount : entries.length - capacity + (s.entries.length + 1 - capacity) =
      (entries ++ [entry]).length - capacity := by
    rw [List.length_append, List.length_singleton]
    omega
  rw [hpush, ← hcount, ← List.drop_drop, ← hdropped, ← h.entries]

/-- **An operation keeps the last entries.** -/
theorem step (h : s.Keeps capacity entries) (pos : 0 < capacity) (operation : Operation α) :
    (s.step operation).Keeps capacity (operation.record entries) := by
  cases operation with
  | push entry => exact h.push pos entry
  | reset => exact ⟨h.room, List.drop_nil.symm⟩
  | poll =>
      show s.poll.2.Keeps capacity entries
      rw [poll]
      split
      · exact ⟨h.room, h.entries⟩
      · exact h

/-- A run keeps the last entries, by induction on its operations. -/
theorem after (h : s.Keeps capacity entries) (pos : 0 < capacity)
    (operations : List (Operation α)) :
    (s.after operations).Keeps capacity (operations.foldl Operation.record entries) := by
  induction operations generalizing s entries with
  | nil => exact h
  | cons operation rest ih => exact ih (h.step pos operation)

end Keeps

/-- What a scrollback of a capacity **shows** of the entries that were pushed. -/
structure Shows (s : Scrollback α) (capacity : Nat) (pushed : List α) : Prop where
  chronological : s.chronological = pushed.drop (pushed.length - min capacity pushed.length)
  snapshot : s.snapshot = (pushed.drop (pushed.length - min capacity pushed.length)).reverse
  last? : s.last? = pushed.getLast?
  size : s.size = min capacity pushed.length
  size_le : s.size ≤ capacity

/-- What a scrollback keeps it shows. The last entry is always kept, as there is room for one. -/
theorem Keeps.shows {s : Scrollback α} {capacity : Nat} {entries : List α}
    (h : s.Keeps capacity entries) (pos : 0 < capacity) : s.Shows capacity entries := by
  have hlength := h.length_entries
  have hentries : s.entries = entries.drop (entries.length - min capacity entries.length) := by
    rw [h.entries]
    congr 1
    omega
  refine ⟨hentries, congrArg List.reverse hentries, ?_, hlength, ?_⟩
  · show s.entries.getLast? = _
    rw [h.entries, List.getLast?_drop]
    split
    · next hnone =>
      have hempty : entries = [] := List.length_eq_zero_iff.mp (by omega)
      rw [hempty]
      rfl
    · rfl
  · show s.entries.length ≤ capacity
    omega

/-! ### Scrollbacks as sample stores -/

/-- The operation of a scrollback that an operation of a store is. -/
def asScrollback : SampleStore.Operation → Operation Sample
  | .push sample => .push sample
  | .clear => .reset

/-- A scrollback that is driven as a store is driven by operations of its own. -/
theorem after_asScrollback (s : Scrollback Sample) (operations : List SampleStore.Operation) :
    SampleStore.after s operations = s.after (operations.map asScrollback) := by
  induction operations generalizing s with
  | nil => rfl
  | cons operation rest ih =>
      cases operation with
      | push sample => exact ih (s.push sample)
      | clear => exact ih s.reset

/-- The samples that are pushed into a store are those that are pushed into the scrollback. -/
theorem pushed_asScrollback (operations : List SampleStore.Operation) :
    SampleStore.pushed operations = pushed (operations.map asScrollback) := by
  rw [SampleStore.pushed, pushed, List.foldl_map]
  congr 1
  funext entries operation
  cases operation with
  | push sample => rfl
  | clear => rfl

/-! ### The last window -/

/-- **A scrollback shows the last entries.** A scrollback can be made for every capacity that
is not zero. Whatever is done with it, it holds the last entries that were pushed since the
last reset, in this order, as many as there are and at most as many as its capacity; its
snapshot is the same turned around, and its last entry is the one that was pushed last. The
same is true if it is driven as a sample store. -/
theorem shows_after {capacity : Nat} (pos : 0 < capacity) :
    (∃ s : Scrollback α, ofCapacity capacity = .ok s ∧
      ∀ operations, (s.after operations).Shows capacity (pushed operations)) ∧
    ∃ s : Scrollback Sample, ofCapacity capacity = .ok s ∧
      ∀ operations, SampleStore.samples (SampleStore.after s operations) =
          (SampleStore.after s operations).chronological ∧
        (SampleStore.after s operations).Shows capacity (SampleStore.pushed operations) := by
  have hnew : ∀ β : Type, ofCapacity capacity = .ok (⟨capacity, [], false⟩ : Scrollback β) :=
    fun β => if_neg (by omega)
  have hkeeps : ∀ (β : Type) (operations : List (Operation β)),
      ((⟨capacity, [], false⟩ : Scrollback β).after operations).Keeps capacity
        (pushed operations) := by
    intro β operations
    exact Keeps.after ⟨rfl, List.drop_nil.symm⟩ pos operations
  refine ⟨⟨_, hnew α, fun operations => (hkeeps α operations).shows pos⟩, _, hnew Sample, ?_⟩
  intro operations
  refine ⟨rfl, ?_⟩
  rw [after_asScrollback, pushed_asScrollback]
  exact (hkeeps Sample _).shows pos

/-! ### A scrollback of two -/

/-- Lines before a reset, and three lines after it, with polls among them. -/
def scrolled : List (Operation String) :=
  [.push "a", .poll, .push "b", .push "c", .reset, .push "d", .poll, .push "e", .push "f", .poll]

/-- The last two lines after the reset are shown. Of three samples that are pushed through the
store after it was cleared, the last two are its samples, in the order in which they were
pushed and not in that of their times. -/
theorem shows_after_two :
    0 < 2 ∧
      (∃ s : Scrollback String, ofCapacity 2 = .ok s ∧
        (s.after scrolled).chronological = ["e", "f"] ∧
        (s.after scrolled).snapshot = ["f", "e"] ∧ (s.after scrolled).last? = some "f" ∧
        (s.after scrolled).size = 2) ∧
      ∃ s : Scrollback Sample, ofCapacity 2 = .ok s ∧
        SampleStore.samples (SampleStore.after s [.push (.ofSeconds 9 1), .clear,
          .push (.ofSeconds 5 2), .push (.ofSeconds 7 3), .push (.ofSeconds 6 4)]) =
          [.ofSeconds 7 3, .ofSeconds 6 4] := by
  have hpos : 0 < 2 := by decide
  obtain ⟨⟨lines, hlines, hshows⟩, samples, hsamples, hstored⟩ := shows_after (α := String) hpos
  have hscrolled := hshows scrolled
  obtain ⟨hsame, hlast⟩ := hstored [.push (.ofSeconds 9 1), .clear, .push (.ofSeconds 5 2),
    .push (.ofSeconds 7 3), .push (.ofSeconds 6 4)]
  exact ⟨hpos, ⟨lines, hlines, hscrolled.chronological, hscrolled.snapshot, hscrolled.last?,
    hscrolled.size⟩, samples, hsamples, hsame.trans hlast.chronological⟩

end Scrollback

end Dashboard
