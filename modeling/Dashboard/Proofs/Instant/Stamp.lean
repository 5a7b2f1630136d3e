import Dashboard.Instant.Timestamp
import Dashboard.Proofs.Document.Scanning
import Dashboard.Proofs.Instant.Calendar
import Dashboard.Proofs.Numeral.Literal

/-!
# Timestamps Are Read by the Moment They Denote

A stamp is a timestamp in full: a date with four digits of year, a time of day, any number of
digits of a fraction, and an offset from universal time. Its moment is a rational number of
seconds since the beginning of 1970. The reader takes every stamp, and what it finds depends on
nothing but the moment: the whole seconds, and the fraction of a second in nanoseconds, rounded
down.

## Main results

* `takes_instant` — the reader takes the text of a stamp.
* `Stamp.instant_eq` — the instant of a stamp is that of its moment.
* `read?_text` — what is read from a stamp is the instant of its moment.
-/

namespace Dashboard.Timestamp

open Text (Scanner Stops isDigit)
open Text.Scanner

/-! ### Stamps -/

/-- An offset from universal time as it is written. -/
inductive Offset where
  /-- The letter for universal time itself. -/
  | universal (capital : Bool)
  /-- A sign, hours and minutes. -/
  | shifted (west : Bool) (hours : Fin 24) (minutes : Fin 60)
  deriving DecidableEq

/-- The text of an offset. -/
def Offset.text : Offset → List Char
  | .universal capital => [if capital then 'Z' else 'z']
  | .shifted west hours minutes =>
    (if west then '-' else '+') :: (padded 2 hours ++ ':' :: padded 2 minutes)

/-- The seconds by which the local time is ahead of universal time. -/
def Offset.seconds : Offset → ℤ
  | .universal _ => 0
  | .shifted west hours minutes =>
    if west then -(hours.val * 3600 + minutes.val * 60) else hours.val * 3600 + minutes.val * 60

/-- A timestamp in full. -/
structure Stamp where
  date : Calendar.Date
  separator : Char
  hour : Fin 24
  minute : Fin 60
  second : Fin 60
  /-- The digits behind the point; there is no point if there are none. -/
  fraction : List Char
  offset : Offset
  date_exists : date.exists = true
  year_bounds : 0 ≤ date.year ∧ date.year ≤ 9999
  separator_mem : separator ∈ ['T', 't', ' ']
  fraction_digits : ∀ c ∈ fraction, isDigit c = true

/-- The fraction of a second behind its point. -/
def pointed (fraction : List Char) : List Char :=
  if fraction = [] then [] else '.' :: fraction

namespace Stamp

variable (s : Stamp)

/-- The text of a stamp. -/
def text : List Char :=
  padded 4 s.date.year.toNat ++ ('-' :: (padded 2 s.date.month.toNat ++ ('-' ::
    (padded 2 s.date.day.toNat ++ (s.separator :: (padded 2 s.hour ++ (':' ::
      (padded 2 s.minute ++ (':' :: (padded 2 s.second ++
        (pointed s.fraction ++ s.offset.text)))))))))))

/-- The whole seconds since the beginning of 1970. -/
def seconds : ℤ :=
  s.date.dayNumber * 86400 + s.hour.val * 3600 + s.minute.val * 60 + s.second.val -
    s.offset.seconds

/-- The fraction of a second. -/
def part : ℚ :=
  Decimal.natOfDigits s.fraction / 10 ^ s.fraction.length

/-- The **moment** of a stamp, in seconds since the beginning of 1970. -/
def moment : ℚ :=
  s.seconds + s.part

end Stamp

/-! ### Fields -/

variable {width n low high : ℕ} {rest text : List Char}

/-- A number that fits is padded to its width. -/
theorem length_padded (hwidth : 0 < width) (h : n < 10 ^ width) :
    (padded width n).length = width := by
  have hle := (Nat.length_toDigits_le_iff (by decide) hwidth).mpr h
  simp only [padded, List.length_append, List.length_replicate]
  omega

/-- A padded number has digits only. -/
theorem isDigit_of_mem_padded (width n : ℕ) : ∀ c ∈ padded width n, isDigit c = true := by
  refine List.forall_mem_append.mpr ⟨fun c hc => ?_, isDigit_of_mem_toDigits⟩
  rw [List.eq_of_mem_replicate hc]
  rfl

/-- It has at least one of them. -/
theorem padded_ne_nil (width n : ℕ) : padded width n ≠ [] := by
  simp [padded, Nat.toDigits_ne_nil]

/-- Padding does not change the number. -/
theorem natOfDigits_padded : Decimal.natOfDigits (padded width n) = n := by
  rw [padded, Decimal.natOfDigits_replicate_zero_append, Decimal.natOfDigits_toDigits]

/-- A padded number is taken with all its digits. -/
theorem takes_padded (hwidth : 0 < width) (h : n < 10 ^ width) (hrest : Stops isDigit rest) :
    Takes (digits width) (padded width n ++ rest) (padded width n) rest := by
  have hlength := length_padded hwidth h
  have htake := takes_digits hwidth (padded_ne_nil width n) (isDigit_of_mem_padded width n) hrest
  rwa [List.take_of_length_le hlength.le, List.drop_of_length_le hlength.le] at htake

/-- Digits are not blank. -/
theorem stops_isBlank_padded : Stops Text.isBlank (padded width n ++ rest) := by
  intro c hc
  rw [List.head?_append_of_ne_nil _ (padded_ne_nil width n)] at hc
  exact Text.isBlank_of_isDigit (isDigit_of_mem_padded width n c (List.mem_of_mem_head? hc))

/-- A field is taken as the number in it, if that is within its bounds. -/
theorem takes_field (hlow : low ≤ n) (hhigh : n ≤ high) (h : n < 100)
    (hrest : Stops isDigit rest) : Takes (field low high) (padded 2 n ++ rest) n rest := by
  refine (takes_blanks stops_isBlank_padded).bind ((takes_padded (by decide) h hrest).bind ?_)
  dsimp only
  rw [natOfDigits_padded, if_pos ⟨hlow, hhigh⟩]
  exact takes_pure n rest

/-- So is a field with a fixed number of digits. -/
theorem takes_fixed (hlow : low ≤ n) (hhigh : n ≤ high) (h : n < 100)
    (hrest : Stops isDigit rest) : Takes (fixed 2 low high) (padded 2 n ++ rest) n rest := by
  refine (takes_padded (by decide) h hrest).bind ?_
  dsimp only
  rw [natOfDigits_padded, if_pos ⟨length_padded (by decide) h, hlow, hhigh⟩]
  exact takes_pure n rest

/-- A mark is taken where it stands. -/
theorem takes_mark {c : Char} (hc : Text.isBlank c = false) (rest : List Char) :
    Takes (mark c) (c :: rest) () rest :=
  (takes_blanks (Text.stops_cons hc)).bind (takes_char c rest)

/-- Digits do not begin with a sign. -/
theorem padded_append_ne_cons {c : Char} {more : List Char} (hc : isDigit c = false) :
    padded width n ++ rest ≠ c :: more := by
  obtain ⟨d, others, hpadded⟩ := List.exists_cons_of_ne_nil (padded_ne_nil width n)
  have hd := isDigit_of_mem_padded width n d (by simp [hpadded])
  rw [hpadded]
  rintro ⟨⟩
  rw [hc] at hd
  cases hd

/-- A year of four digits is taken as the number that they denote. -/
theorem takes_year (h : n ≤ 9999) (hrest : Stops isDigit rest) :
    Takes year (padded 4 n ++ rest) (n : ℤ) rest := by
  have hsigned : Takes signedYear (padded 4 n ++ rest) (n : ℤ) rest := by
    refine (takes_blanks stops_isBlank_padded).bind ((takes_get _).bind ?_)
    split
    · next hminus => exact absurd hminus (padded_append_ne_cons (by decide))
    · next hplus => exact absurd hplus (padded_append_ne_cons (by decide))
    · refine (takes_padded (by decide) (by omega) hrest).bind ?_
      rw [natOfDigits_padded]
      exact takes_pure _ rest
  refine hsigned.bind ?_
  rw [if_pos ⟨by omega, by omega⟩]
  exact takes_pure _ rest

/-- A date that exists is taken. -/
theorem takes_date {d : Calendar.Date} (hd : d.exists = true)
    (hyear : 0 ≤ d.year ∧ d.year ≤ 9999) (hrest : Stops isDigit rest) :
    Takes date (padded 4 d.year.toNat ++ ('-' :: (padded 2 d.month.toNat ++ ('-' ::
      (padded 2 d.day.toNat ++ rest))))) d rest := by
  have hfields := Calendar.bounds_of_exists hd
  have hdash : ∀ text, Stops isDigit ('-' :: text) := fun text => Text.stops_cons (by decide)
  refine (takes_year (by omega) (hdash _)).bind ((takes_mark (by decide) _).bind ?_)
  refine (takes_field (by omega) (by omega) (by omega) (hdash _)).bind ?_
  refine (takes_mark (by decide) _).bind ?_
  refine (takes_field (by omega) (by omega) (by omega) hrest).bind ?_
  dsimp only
  rw [Int.toNat_of_nonneg hyear.1, Int.toNat_of_nonneg (by omega),
    Int.toNat_of_nonneg (by omega), if_pos hd]
  exact takes_pure d rest

/-! ### Fractions -/

/-- The nanoseconds that the reader takes off a fraction: the first nine digits count. -/
def nanosOfDigits (fraction : List Char) : ℕ :=
  Decimal.natOfDigits (fraction.take 9) * 10 ^ (9 - (fraction.take 9).length)

/-- The nanoseconds of a fraction are those of its number, rounded down. -/
theorem nanosOfDigits_eq {fraction : List Char} (h : ∀ c ∈ fraction, isDigit c = true) :
    nanosOfDigits fraction =
      Decimal.natOfDigits fraction * 10 ^ 9 / 10 ^ fraction.length := by
  have hlength : (fraction.take 9).length + (fraction.drop 9).length = fraction.length := by
    rw [← List.length_append, List.take_append_drop]
  have hsplit := Decimal.natOfDigits_append (fraction.take 9) (fraction.drop 9)
  rw [List.take_append_drop] at hsplit
  have hbehind : ∀ c ∈ fraction.drop 9, isDigit c = true := fun c hc =>
    h c (List.mem_of_mem_drop hc)
  have hlt := Decimal.natOfDigits_lt hbehind
  rw [nanosOfDigits, hsplit, ← hlength, Nat.pow_add]
  have hcount : (fraction.take 9).length ≤ 9 ∧
      ((fraction.take 9).length = 9 ∨ (fraction.drop 9).length = 0) := by
    rw [List.length_take, List.length_drop]
    omega
  generalize Decimal.natOfDigits (fraction.drop 9) = behind at hlt
  generalize Decimal.natOfDigits (fraction.take 9) = front
  obtain ⟨hle, hnine | hnone⟩ := hcount
  · rw [hnine, Nat.sub_self, Nat.pow_zero, Nat.mul_one, Nat.mul_comm _ (10 ^ 9),
      Nat.mul_div_mul_left _ _ (by decide), Nat.mul_add_div (Nat.pow_pos (by decide)),
      Nat.div_eq_of_lt hlt, Nat.add_zero]
  · rw [hnone] at hlt ⊢
    obtain rfl : behind = 0 := by omega
    have hpower : 10 ^ 9 = 10 ^ (9 - (fraction.take 9).length) * 10 ^ (fraction.take 9).length := by
      rw [← Nat.pow_add, Nat.sub_add_cancel hle]
    rw [Nat.pow_zero, Nat.one_mul, Nat.mul_one, Nat.add_zero, hpower, ← Nat.mul_assoc,
      Nat.mul_div_cancel _ (Nat.pow_pos (by decide))]

/-- A fraction is taken with all of its digits. -/
theorem takes_fraction {run : List Char} (hrun : ∀ c ∈ run, isDigit c = true)
    (hrest : Stops isDigit rest) (hpoint : rest.head? ≠ some '.') :
    Takes fraction (pointed run ++ rest) (nanosOfDigits run) rest := by
  unfold fraction pointed
  split
  · next hnone =>
    subst hnone
    have hrefuses : ∀ more, rest ≠ '.' :: more := by
      rintro more rfl
      exact hpoint rfl
    have hahead : (rest.head? == some '.') = false := beq_false_of_ne hpoint
    refine (refuses_char hrefuses).bind.orElse ((takes_ahead _ _).bind ?_)
    rw [hahead]
    exact takes_pure 0 rest
  · next hne =>
    refine Takes.orElse ((takes_char '.' _).bind ?_)
    refine (takes_digits (by decide) hne hrun hrest).bind ?_
    refine (takes_skipWhile_of_stops (fun c hc => hrun c (List.mem_of_mem_drop hc)) hrest).bind ?_
    exact takes_pure _ rest

/-! ### Offsets -/

/-- An offset with a sign is not the word for universal time. -/
theorem refuses_universal {c : Char} (hc : c.toUpper ≠ 'U') (rest : List Char) :
    Refuses universal (c :: rest) := by
  show (if _ then _ else _) = _
  exact if_neg fun h => hc (List.cons.inj h).1

/-- The mark between hours and minutes is skipped. -/
theorem takes_separator (n : ℕ) :
    Takes (skipWhile fun c => c == ':' || Text.isBlank c) (':' :: padded 2 n) () (padded 2 n) := by
  have hmark : ∀ c ∈ [':'], (c == ':' || Text.isBlank c) = true :=
    List.forall_mem_singleton.mpr rfl
  refine takes_skipWhile_of_stops hmark fun c hc => ?_
  have hdigit : isDigit c = true := isDigit_of_mem_padded 2 n c (List.mem_of_mem_head? hc)
  have hcolon : c ≠ ':' := by
    rintro rfl
    exact absurd hdigit (by decide)
  simp [Text.isBlank_of_isDigit hdigit, hcolon]

/-- An offset is taken as the seconds that its hours and minutes make, with its sign. -/
theorem takes_hoursAndMinutes {sign : Char} (hsign : sign = '+' ∨ sign = '-') (hours : Fin 24)
    (minutes : Fin 60) :
    Takes hoursAndMinutes (sign :: (padded 2 hours ++ ':' :: padded 2 minutes))
      (if sign = '+' then (hours.val * 3600 + minutes.val * 60 : ℤ)
        else -(hours.val * 3600 + minutes.val * 60)) [] := by
  have hcolon : Stops isDigit (':' :: padded 2 minutes) := Text.stops_cons (by decide)
  have hminutes : Takes (fixed 2 0 59) (padded 2 minutes) minutes.val [] := by
    have hend : Stops isDigit ([] : List Char) := by simp [Stops]
    have h := takes_fixed (n := minutes) (Nat.zero_le _) (Nat.le_of_lt_succ minutes.isLt)
      (by omega) hend
    rwa [List.append_nil] at h
  have hmark : (sign == '+' || sign == '-' || sign == '−') = true := by
    rcases hsign with rfl | rfl
    · rfl
    · rfl
  exact (takes_satisfying hmark _).bind ((takes_fixed (by omega) (by omega) (by omega) hcolon).bind
    ((takes_separator _).bind (hminutes.bind (takes_pure _ _))))

/-- Every offset is taken as its seconds. -/
theorem takes_offset (o : Offset) : Takes offset o.text o.seconds [] := by
  cases o with
  | universal capital =>
      cases capital
      all_goals
        refine (takes_blanks (Text.stops_cons (by decide))).bind ?_
        refine (refuses_universal (by decide) _).orElse (Takes.orElse ?_)
        exact (takes_satisfying (by decide) _).bind (takes_pure 0 _)
  | shifted west hours minutes =>
      cases west
      · refine (takes_blanks (Text.stops_cons (by decide))).bind ?_
        refine (refuses_universal (by decide) _).orElse ?_
        refine (refuses_satisfying (Text.stops_cons (by decide))).bind.orElse ?_
        exact takes_hoursAndMinutes (.inl rfl) hours minutes
      · refine (takes_blanks (Text.stops_cons (by decide))).bind ?_
        refine (refuses_universal (by decide) _).orElse ?_
        refine (refuses_satisfying (Text.stops_cons (by decide))).bind.orElse ?_
        exact takes_hoursAndMinutes (.inr rfl) hours minutes

/-- An offset begins with neither a digit nor a point. -/
theorem Offset.text_stops (o : Offset) : Stops isDigit o.text ∧ o.text.head? ≠ some '.' := by
  cases o with
  | universal capital => cases capital <;> exact ⟨Text.stops_cons (by decide), by decide⟩
  | shifted west => cases west <;> exact ⟨Text.stops_cons (by decide), by simp [Offset.text]⟩

/-! ### Reading -/

/-- The instant that is read from a stamp. -/
def Stamp.instant (s : Stamp) : Instant :=
  ⟨s.seconds, nanosOfDigits s.fraction⟩

/-- The digits of the second stop in front of the fraction. -/
theorem stops_pointed (hstops : Stops isDigit rest) (fraction : List Char) :
    Stops isDigit (pointed fraction ++ rest) := by
  unfold pointed
  split
  · exact hstops
  · exact Text.stops_cons (by decide)

/-- A separator is one of those that are allowed, and no digit. -/
theorem Stamp.separator_spec (s : Stamp) :
    (s.separator == 'T' || s.separator == 't' || s.separator == ' ') = true ∧
      isDigit s.separator = false := by
  have hmem := s.separator_mem
  generalize s.separator = c at hmem
  simp only [List.mem_cons, List.not_mem_nil, or_false] at hmem
  rcases hmem with rfl | rfl | rfl
  all_goals decide

/-- **The reader takes the text of a stamp.** -/
theorem takes_instant (s : Stamp) : Takes instant s.text s.instant [] := by
  obtain ⟨hstops, hpoint⟩ := s.offset.text_stops
  obtain ⟨hseparator, hdigit⟩ := s.separator_spec
  have hcolon : ∀ text, Stops isDigit (':' :: text) := fun text => Text.stops_cons (by decide)
  refine (takes_date s.date_exists s.year_bounds (Text.stops_cons hdigit)).bind ?_
  refine (takes_satisfying hseparator _).bind ?_
  refine (takes_field (by omega) (by omega) (by omega) (hcolon _)).bind ?_
  refine (takes_mark (by decide) _).bind ?_
  refine (takes_field (by omega) (by omega) (by omega) (hcolon _)).bind ?_
  refine (takes_mark (by decide) _).bind ?_
  refine (takes_field (by omega) (by omega) (by omega) (stops_pointed hstops _)).bind ?_
  refine (takes_fraction s.fraction_digits hstops hpoint).bind ?_
  refine (takes_offset s.offset).bind ?_
  refine (takes_blanks (by simp [Stops])).bind ?_
  have hsecond : s.second.val ≠ 60 := by omega
  dsimp only
  rw [if_neg hsecond, zero_mul, add_zero, sub_zero]
  exact takes_pure s.instant []

/-! ### Moments -/

/-- The instant of a moment: its whole seconds, and the nanoseconds of the rest, rounded down. -/
def ofMoment (q : ℚ) : Instant :=
  ⟨⌊q⌋, ⌊Int.fract q * 10 ^ 9⌋⟩

/-- The fraction of a second is less than a second. -/
theorem Stamp.part_bounds (s : Stamp) : 0 ≤ s.part ∧ s.part < 1 := by
  have hlt := Decimal.natOfDigits_lt s.fraction_digits
  rw [part]
  refine ⟨by positivity, ?_⟩
  rw [div_lt_one (by positivity)]
  exact_mod_cast hlt

/-- What is read from a stamp depends on its moment alone. -/
theorem Stamp.instant_eq (s : Stamp) : s.instant = ofMoment s.moment := by
  obtain ⟨hnonneg, hlt⟩ := s.part_bounds
  have hseconds : ⌊s.moment⌋ = s.seconds := by
    rw [moment, Int.floor_intCast_add, Int.floor_eq_zero_iff.mpr ⟨hnonneg, hlt⟩, add_zero]
  have hpart : Int.fract s.moment = s.part := by
    rw [moment, Int.fract_intCast_add, Int.fract_eq_self.mpr ⟨hnonneg, hlt⟩]
  have hnanos : ⌊s.part * 10 ^ 9⌋ = (nanosOfDigits s.fraction : ℤ) := by
    rw [nanosOfDigits_eq s.fraction_digits, part, div_mul_eq_mul_div]
    exact_mod_cast Rat.floor_natCast_div_natCast _ _
  rw [instant, ofMoment, hseconds, hpart, hnanos]

/-- **What is read from a stamp is the instant of its moment.** -/
theorem read?_text (s : Stamp) :
    Timestamp.read? (String.ofList s.text) = some (ofMoment s.moment) := by
  have htakes := takes_instant s
  rw [Takes] at htakes
  rw [Timestamp.read?, whole?, String.toList_ofList, htakes, s.instant_eq]

end Dashboard.Timestamp
