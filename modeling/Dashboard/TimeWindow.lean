import Dashboard.Records

/-!
# Time Windows

A time window keeps the samples of a plot that are no older than a period before the newest
one. Samples may arrive out of order; they are kept in the order of their times, those of
the same time in the order of their arrival.

## Main results

* `mem_insert` — an insertion adds one sample and loses none.
-/

namespace Dashboard

/-- The samples within a period of the newest one, oldest first. The period is given in
nanoseconds; it may be negative, and then no sample is kept. -/
structure TimeWindow where
  period : Int
  samples : List Sample
  deriving BEq

namespace TimeWindow

/-- A window without samples. -/
def ofPeriod (period : Int) : TimeWindow :=
  ⟨period, []⟩

/-- Puts a sample behind those that are not later. -/
def insert (sample : Sample) (samples : List Sample) : List Sample :=
  samples.takeWhile (fun s => (compare s.time sample.time).isLE) ++ sample ::
    samples.dropWhile fun s => (compare s.time sample.time).isLE

/-- The samples that are no older than a period before the last one. -/
def expired (period : Int) (samples : List Sample) : List Sample :=
  match samples.getLast? with
  | none => []
  | some newest =>
    samples.dropWhile fun s => (compare s.time (newest.time.minus period)).isLT

/-- Adds a sample; those that are too old now go. -/
def push (w : TimeWindow) (sample : Sample) : TimeWindow :=
  { w with samples := expired w.period (insert sample w.samples) }

/-- Removes all samples. -/
def clear (w : TimeWindow) : TimeWindow :=
  { w with samples := [] }

/-- The number of samples. -/
def size (w : TimeWindow) : Nat :=
  w.samples.length

/-- An insertion adds one sample and loses none. -/
theorem mem_insert {sample s : Sample} {samples : List Sample} :
    s ∈ insert sample samples ↔ s = sample ∨ s ∈ samples := by
  have split : s ∈ samples ↔
      s ∈ samples.takeWhile (fun s => (compare s.time sample.time).isLE) ∨
        s ∈ samples.dropWhile (fun s => (compare s.time sample.time).isLE) := by
    rw [← List.mem_append, List.takeWhile_append_dropWhile]
  simp only [insert, List.mem_append, List.mem_cons, split, or_left_comm]

end TimeWindow

end Dashboard
