import Dashboard.Proofs.Instant.Stamp

/-!
# What Is Written for an Instant Is Read Back

An instant of the years with four digits that lies in no leap second is written as a stamp in
universal time, with no, three, six or nine digits of fraction. The stamp denotes the instant
exactly, so it is read back from it.

## Main results

* `fractionText_eq` — the fraction is written with digits that denote it.
* `render_eq` — what is written for an instant is a stamp that is read to it.
* `read?_render` — what is written for an instant is read back.
-/

namespace Dashboard

/-- An instant that has a date with four digits of year and lies in no leap second. -/
structure Instant.Civil (t : Instant) : Prop where
  year_nonneg : 0 ≤ (Calendar.Date.ofDayNumber (t.seconds / 86400)).year
  year_le : (Calendar.Date.ofDayNumber (t.seconds / 86400)).year ≤ 9999
  nanos_nonneg : 0 ≤ t.nanos
  nanos_lt : t.nanos < nanosPerSecond

instance (t : Instant) : Decidable t.Civil :=
  decidable_of_iff (0 ≤ (Calendar.Date.ofDayNumber (t.seconds / 86400)).year ∧
      (Calendar.Date.ofDayNumber (t.seconds / 86400)).year ≤ 9999 ∧
        0 ≤ t.nanos ∧ t.nanos < nanosPerSecond)
    ⟨fun ⟨a, b, c, d⟩ => ⟨a, b, c, d⟩, fun ⟨a, b, c, d⟩ => ⟨a, b, c, d⟩⟩

namespace Timestamp

/-! ### Fractions -/

/-- The digits of the fraction that is written for some nanoseconds. -/
def fractionDigits (nanos : ℕ) : List Char :=
  if nanos = 0 then []
  else if nanos % 1000000 = 0 then padded 3 (nanos / 1000000)
  else if nanos % 1000 = 0 then padded 6 (nanos / 1000)
  else padded 9 nanos

variable {nanos : ℕ}

/-- The fraction is written with its digits behind a point. -/
theorem fractionText_eq : fractionText nanos = pointed (fractionDigits nanos) := by
  unfold fractionText fractionDigits
  split
  · rfl
  · split
    · rw [pointed, if_neg (padded_ne_nil _ _)]
    · split
      · rw [pointed, if_neg (padded_ne_nil _ _)]
      · rw [pointed, if_neg (padded_ne_nil _ _)]

/-- The digits of a fraction are digits. -/
theorem isDigit_of_mem_fractionDigits : ∀ c ∈ fractionDigits nanos, Text.isDigit c = true := by
  unfold fractionDigits
  split
  · simp
  · split
    · exact isDigit_of_mem_padded _ _
    · split
      · exact isDigit_of_mem_padded _ _
      · exact isDigit_of_mem_padded _ _

/-- The nanoseconds of a padded number of them, of some thousands of them, or of some millions. -/
theorem nanosOfDigits_padded {width n : ℕ} (hwidth : 0 < width) (hle : width ≤ 9)
    (h : n < 10 ^ width) : nanosOfDigits (padded width n) = n * 10 ^ (9 - width) := by
  have hlength := length_padded hwidth h
  rw [nanosOfDigits, List.take_of_length_le (by omega), natOfDigits_padded, hlength]

/-- **The digits of a fraction denote its nanoseconds.** -/
theorem nanosOfDigits_fractionDigits (h : nanos < 10 ^ 9) :
    nanosOfDigits (fractionDigits nanos) = nanos := by
  unfold fractionDigits
  split
  · next hzero =>
    subst hzero
    rfl
  · split
    · rw [nanosOfDigits_padded (by decide) (by decide) (by omega)]
      omega
    · split
      · rw [nanosOfDigits_padded (by decide) (by decide) (by omega)]
        omega
      · rw [nanosOfDigits_padded (by decide) (by decide) h]
        omega

/-! ### Instants -/

/-- The stamp that is written for an instant. -/
def stampOf (t : Instant) (h : t.Civil) : Stamp where
  date := Calendar.Date.ofDayNumber (t.seconds / 86400)
  separator := 'T'
  hour := ⟨(t.seconds % 86400).toNat / 3600, by omega⟩
  minute := ⟨(t.seconds % 86400).toNat / 60 % 60, by omega⟩
  second := ⟨(t.seconds % 86400).toNat % 60, by omega⟩
  fraction := fractionDigits t.nanos.toNat
  offset := .universal true
  date_exists := Calendar.exists_ofDayNumber _
  year_bounds := ⟨h.year_nonneg, h.year_le⟩
  separator_mem := List.mem_cons_self
  fraction_digits := isDigit_of_mem_fractionDigits

variable {t : Instant}

/-- What is written for an instant is the text of its stamp. -/
theorem render_eq (h : t.Civil) : render t = String.ofList (stampOf t h).text := by
  have hleap : t.isLeap = false := decide_eq_false (not_le.mpr h.nanos_lt)
  have hnanos : t.nanos % nanosPerSecond = t.nanos := Int.emod_eq_of_lt h.nanos_nonneg h.nanos_lt
  have hyear : yearText (Calendar.Date.ofDayNumber (t.seconds / 86400)).year =
      padded 4 (Calendar.Date.ofDayNumber (t.seconds / 86400)).year.toNat :=
    if_pos ⟨h.year_nonneg, h.year_le⟩
  simp [render, hleap, hnanos, hyear, fractionText_eq, Stamp.text, stampOf, Offset.text]

/-- The stamp of an instant is read to it. -/
theorem instant_stampOf (h : t.Civil) : (stampOf t h).instant = t := by
  have hday := Calendar.dayNumber_ofDayNumber (t.seconds / 86400)
  have hseconds : (stampOf t h).seconds = t.seconds := by
    simp only [Stamp.seconds, stampOf, Offset.seconds, hday]
    omega
  have hnanos : (nanosOfDigits (stampOf t h).fraction : ℤ) = t.nanos := by
    have := h.nanos_lt
    rw [nanosPerSecond] at this
    have := h.nanos_nonneg
    rw [stampOf, nanosOfDigits_fractionDigits (by omega)]
    omega
  rw [Stamp.instant, hseconds, hnanos]

/-- **What is written for an instant is read back.** -/
theorem read?_render (h : t.Civil) : read? (render t) = some t := by
  rw [render_eq h, read?_text, ← Stamp.instant_eq, instant_stampOf h]

end Timestamp

end Dashboard
